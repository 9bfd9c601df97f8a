import EpicMiner.Report.HashrateReport
import Mathlib.Algebra.Order.BigOperators.Group.List
import Mathlib.Data.List.Chain

/-!
Owns the session average of the hash-rate report over whole runs of the executor.
In a session in which the threads of a type hash without pause, the report shows
their averages and the sum of these exactly if no thread but the last found a hash
in the window of the average, and the log still holds that window.
-/

namespace EpicMiner.Report

open EpicMiner.Data

/-! ## Runs of the executor -/

/-- The callbacks of the executor that record the hashes of the miners. -/
inductive Callback where
  | heartbeat
  | newJob
  | idleJob
deriving DecidableEq

/-- A callback with the two clocks it reads, and what it finds in the atomics of each thread. -/
structure Call where
  callback : Callback
  timeNow : Int
  timestampS : Int
  sampled : Nat → Sample
  sampled_time : ∀ thd, (sampled thd).time = timeNow

/-- `miners`, and `session_timestamp` of `pool_ctr`. -/
structure Executor where
  miners : List Miner
  sessionTimestamp : Int

/-- `record_miner_hashes`. -/
def Executor.recordMinerHashes (executor : Executor) (call : Call) : Executor :=
  { executor with
    miners := executor.miners.mapIdx fun thd miner => miner.sample (call.sampled thd) }

/-- The hash records and the session in `on_heartbeat`, `on_pool_new_job` and `push_idle_job`. -/
def Executor.step (executor : Executor) (call : Call) : Executor :=
  let recorded := executor.recordMinerHashes call
  match call.callback with
  | .heartbeat => recorded
  | .newJob =>
      if recorded.sessionTimestamp = 0 then { recorded with sessionTimestamp := call.timestampS }
      else recorded
  -- `pool_ctr.reset()`
  | .idleJob => { recorded with sessionTimestamp := 0 }

def Executor.run (executor : Executor) (calls : List Call) : Executor :=
  calls.foldl step executor

/-- What a thread was sampled with, the newest sample first. -/
def samplesOf (calls : List Call) (thd : Nat) : List Sample :=
  (calls.map (·.sampled thd)).reverse

theorem Executor.miners_step (executor : Executor) (call : Call) :
    (executor.step call).miners = (executor.recordMinerHashes call).miners := by
  unfold step
  cases call.callback with
  | heartbeat => rfl
  | newJob => dsimp only; split <;> rfl
  | idleJob => rfl

theorem Executor.miners_run (executor : Executor) (calls : List Call) :
    (executor.run calls).miners =
      executor.miners.mapIdx fun thd miner => miner.sampleAll (calls.map (·.sampled thd)) := by
  unfold run
  induction calls generalizing executor with
  | nil => exact (List.ext_getElem? fun thd => by simp [Miner.sampleAll]).symm
  | cons call calls inductionHypothesis =>
      rw [List.foldl_cons, inductionHypothesis, miners_step, recordMinerHashes, List.mapIdx_mapIdx]
      rfl

theorem Miner.sampleAll_type (miner : Miner) (samples : List Sample) :
    (miner.sampleAll samples).type = miner.type := by
  unfold sampleAll
  induction samples generalizing miner with
  | nil => rfl
  | cons sample samples inductionHypothesis => exact inductionHypothesis (miner.sample sample)

/-- A session goes on until an idle job ends it. -/
theorem Executor.sessionTimestamp_run {executor : Executor} (started : executor.sessionTimestamp ≠ 0)
    {calls : List Call} (unbroken : ∀ call ∈ calls, call.callback ≠ .idleJob) :
    (executor.run calls).sessionTimestamp = executor.sessionTimestamp := by
  unfold run
  induction calls generalizing executor with
  | nil => rfl
  | cons call calls inductionHypothesis =>
      obtain ⟨notIdle, later⟩ := List.forall_mem_cons.mp unbroken
      have same : (executor.step call).sessionTimestamp = executor.sessionTimestamp := by
        unfold step recordMinerHashes
        cases itsCallback : call.callback with
        | heartbeat => rfl
        | newJob => simp [started]
        | idleJob => exact absurd itsCallback notIdle
      rw [List.foldl_cons, inductionHypothesis (same ▸ started) later, same]

/-! ## Windows of orderly samples -/

section Windows

variable {samples run : List Sample} {limit : Int}

theorem hashingSum_nonneg {value : Sample → Int}
    (ordered : samples.Pairwise fun newer older => value older ≤ value newer) :
    0 ≤ hashingSum value samples := by
  induction samples with
  | nil => exact le_refl 0
  | cons newer samples inductionHypothesis =>
      obtain ⟨first, later⟩ := List.pairwise_cons.mp ordered
      cases samples with
      | nil => exact le_refl 0
      | cons older samples =>
          have behind := inductionHypothesis later
          have pair := first older (.head _)
          rw [hashingSum, counted]
          split <;> omega

theorem hashingSum_le_of_prefix {value : Sample → Int}
    (ordered : samples.Pairwise fun newer older => value older ≤ value newer)
    (isPrefix : run <+: samples) : hashingSum value run ≤ hashingSum value samples := by
  induction samples generalizing run with
  | nil => rw [List.prefix_nil.mp isPrefix]
  | cons newer samples inductionHypothesis =>
      have nonneg := hashingSum_nonneg ordered
      cases run with
      | nil => exact nonneg
      | cons head run =>
          obtain ⟨rfl, tailPrefix⟩ := List.cons_prefix_cons.mp isPrefix
          by_cases short : run = []
          · subst short
            exact nonneg
          · cases samples with
            | nil => exact absurd (List.prefix_nil.mp tailPrefix) short
            | cons older samples =>
                have behind := inductionHypothesis (List.pairwise_cons.mp ordered).2 tailPrefix
                rw [hashingSum_cons value tailPrefix short,
                  hashingSum_cons value (List.prefix_refl _) (List.cons_ne_nil _ _)]
                omega

/-- Samples with enough hashing time have a window. -/
theorem exists_isWindow (exceeds : limit < hashingTime samples) :
    ∃ run, IsWindow limit samples run := by
  have some : ∃ n, limit < hashingTime (samples.take n) :=
    ⟨samples.length, by rwa [List.take_length]⟩
  refine ⟨samples.take (Nat.find some), List.take_prefix _ _, Nat.find_spec some,
    fun shorter isPrefix more => ?_⟩
  have bound := isPrefix.length_le
  rw [List.length_take] at bound
  have taken : shorter = samples.take shorter.length :=
    List.prefix_iff_eq_take.mp (isPrefix.trans (List.take_prefix _ _))
  rw [taken] at more
  have least := Nat.find_min' some more
  apply isPrefix.eq_of_length
  rw [List.length_take]
  omega

/-- Without a pause, all the time is hashing time. -/
theorem hashingTime_of_hashing {newest oldest : Sample}
    (hashing : ∀ sample ∈ samples, sample.hashing = true) (first : samples.head? = some newest)
    (last : samples.getLast? = some oldest) :
    hashingTime samples = newest.time - oldest.time := by
  induction samples generalizing newest with
  | nil => cases first
  | cons head samples inductionHypothesis =>
      obtain rfl := Option.some.inj first
      cases samples with
      | nil =>
          obtain rfl := Option.some.inj last
          exact (Int.sub_self _).symm
      | cons older samples =>
          have behind := inductionHypothesis (fun sample member => hashing sample (.tail _ member))
            rfl last
          have pair : counted Sample.time head older = head.time - older.time :=
            if_pos ⟨hashing head (.head _), hashing older (.tail _ (.head _))⟩
          rw [hashingTime_cons (List.prefix_refl _) (List.cons_ne_nil _ _), behind, pair]
          omega

/-- A place that holds a window of the most recent samples holds it as its own. -/
theorem IsWindow.take {older : List Sample} {size : Nat} (window : IsWindow limit samples run)
    (held : run.length ≤ size) : IsWindow limit ((samples ++ older).take size) run :=
  ⟨List.prefix_take_iff.mpr ⟨window.recent.trans (List.prefix_append _ _), held⟩, window.exceeds,
    window.shortest⟩

/-- A place that is too small for that window has none. -/
theorem IsWindow.not_take {older : List Sample} {size : Nat} (window : IsWindow limit samples run)
    (long : size < run.length) :
    ¬∃ other, IsWindow limit ((samples ++ older).take size) other := by
  rintro ⟨other, window'⟩
  obtain ⟨recent, short⟩ := List.prefix_take_iff.mp window'.recent
  have shorter := List.prefix_of_prefix_length_le recent
    (window.recent.trans (List.prefix_append _ older)) (by omega)
  rw [window.shortest other shorter window'.exceeds] at short
  omega

theorem runRate_nonneg (orderly : Orderly run) : 0 ≤ runRate run := by
  have hashes : 0 ≤ hashesFound run := hashingSum_nonneg (orderly.imp And.right)
  have time : 0 ≤ hashingTime run := hashingSum_nonneg (orderly.imp And.left)
  exact div_nonneg (mul_nonneg (by norm_num) (Int.cast_nonneg hashes)) (Int.cast_nonneg time)

theorem runRate_eq_zero_iff (positive : 0 < hashingTime run) :
    runRate run = 0 ↔ hashesFound run = 0 := by
  have nonzero : (hashingTime run : ℚ) ≠ 0 := by exact_mod_cast positive.ne'
  simp [runRate, nonzero]

end Windows

/-! ## Sessions -/

/-- A run up to a report: the calls before the session, the job that starts it, and the calls
since then. The two clocks of a call differ by a fixed offset. -/
structure MiningRun where
  miners : List Miner
  before : List Call
  firstJob : Call
  session : List Call
  reportMs : Int
  reportS : Int
  created : ∀ miner ∈ miners, ∃ type memory, miner = .create type memory
  noSession : (Executor.run ⟨miners, 0⟩ before).sessionTimestamp = 0
  isJob : firstJob.callback = .newJob
  afterEpoch : 0 < firstJob.timestampS
  unbroken : ∀ call ∈ session, call.callback ≠ .idleJob
  orderly : ∀ thd < miners.length, Orderly (samplesOf (before ++ firstJob :: session) thd)
  clocks : ∃ offset, firstJob.timestampS = (firstJob.timeNow + offset) / 1000 ∧
    reportS = (reportMs + offset) / 1000

namespace MiningRun

variable (mining : MiningRun) (type : MinerType)

def calls : List Call :=
  mining.before ++ mining.firstJob :: mining.session

def executor : Executor :=
  .run ⟨mining.miners, 0⟩ mining.calls

def threads : List Nat :=
  threadsOf mining.miners type

/-- The last column of a thread. -/
def shown (thd : Nat) : ℚ :=
  (threadRates mining.executor.miners
    (sessionTime mining.executor.sessionTimestamp mining.reportS) thd).hrSess

/-- What the report prints. -/
def report : Option (List Piece) :=
  printHashrateReport mining.executor.miners mining.executor.sessionTimestamp mining.reportS type

/-- A heartbeat each second: no two records, from the first job to the report, are more than
14 seconds apart. -/
def Beats : Prop :=
  ((mining.firstJob :: mining.session).map Call.timeNow ++ [mining.reportMs]).IsChain
    fun earlier later => later - earlier ≤ 14000

def HashesWithoutPause : Prop :=
  ∀ call ∈ mining.session, ∀ thd ∈ mining.threads type, (call.sampled thd).hashing = true

/-- The time that the session average has to exceed, in milliseconds. -/
def sessionLimit : Int :=
  1000 * (min (mining.reportS - mining.firstJob.timestampS) (24 * 60 * 60) - 30)

/-- The window of the session average of a thread. -/
def IsSessionWindow (thd : Nat) (window : List Sample) : Prop :=
  IsWindow mining.sessionLimit (samplesOf mining.session thd) window

/-- The thread found no hash in it. -/
def Unlucky (thd : Nat) : Prop :=
  ∀ window, mining.IsSessionWindow thd window → hashesFound window = 0

/-- The log is long enough for it. -/
def Held (thd : Nat) : Prop :=
  ∀ window, mining.IsSessionWindow thd window → window.length ≤ hashLogSize

/-- A hash rate over most recent samples of the session with more than that time. -/
def Averages (thd : Nat) (hrSess : ℚ) : Prop :=
  ∃ recent, recent <+: samplesOf mining.session thd ∧ mining.sessionLimit < hashingTime recent ∧
    hrSess = runRate recent ∧ (hashesFound recent ≠ 0 → hrSess ≠ 0)

/-- The session averages, and their sum. -/
structure ShowsSession (msg : List Piece) : Prop where
  threads : (shownRows msg).map Prod.fst = mining.threads type
  averages : ∀ thd rates, (thd, rates) ∈ shownRows msg → mining.Averages thd rates.hrSess
  total : ∃ sums, shownSums msg = [sums] ∧
    sums.hrSess = ((shownRows msg).map fun row => row.2.hrSess).sum

/-- The report of the type, if it has threads, shows them. -/
def ReportsSession : Prop :=
  mining.threads type ≠ [] → ∃ msg, mining.report type = some msg ∧ mining.ShowsSession type msg

end MiningRun

section Sessions

variable {mining : MiningRun} {type : MinerType}

theorem samplesOf_calls (thd : Nat) :
    samplesOf mining.calls thd =
      samplesOf mining.session thd ++ samplesOf (mining.before ++ [mining.firstJob]) thd := by
  simp [samplesOf, MiningRun.calls]

theorem miners_executor :
    mining.executor.miners = mining.miners.mapIdx fun thd miner =>
      miner.sampleAll (mining.calls.map (·.sampled thd)) :=
  Executor.miners_run _ _

theorem threadsOf_executor : threadsOf mining.executor.miners type = mining.threads type := by
  rw [MiningRun.threads, threadsOf, threadsOf, miners_executor, List.length_mapIdx]
  congr 1
  funext thd
  rw [List.getElem?_mapIdx, Option.any_map]
  simp only [Miner.sampleAll_type]

theorem sessionTimestamp_executor :
    mining.executor.sessionTimestamp = mining.firstJob.timestampS := by
  have afterEpoch := mining.afterEpoch
  have started : ((Executor.run ⟨mining.miners, 0⟩ mining.before).step
      mining.firstJob).sessionTimestamp = mining.firstJob.timestampS := by
    simp [Executor.step, Executor.recordMinerHashes, mining.isJob, mining.noSession]
  have same := Executor.sessionTimestamp_run (started ▸ afterEpoch.ne') mining.unbroken
  rw [started] at same
  rw [← same, MiningRun.executor, MiningRun.calls, Executor.run, Executor.run, Executor.run,
    List.foldl_append, List.foldl_cons]

theorem sessionTime_executor (late : 45 < mining.reportS - mining.firstJob.timestampS) :
    1000 * (sessionTime mining.executor.sessionTimestamp mining.reportS - 30) =
        mining.sessionLimit ∧
      45 < sessionTime mining.executor.sessionTimestamp mining.reportS := by
  have afterEpoch := mining.afterEpoch
  rw [sessionTimestamp_executor, sessionTime, MiningRun.sessionLimit, if_pos afterEpoch.ne']
  split <;> omega

/-- A session with its heartbeats has the hashing time of its average. -/
theorem exists_sessionWindow (beats : mining.Beats) (hashing : mining.HashesWithoutPause type)
    (late : 45 < mining.reportS - mining.firstJob.timestampS) {thd : Nat}
    (isThread : thd ∈ mining.threads type) : ∃ window, mining.IsSessionWindow thd window := by
  apply exists_isWindow
  obtain ⟨offset, startClock, reportClock⟩ := mining.clocks
  unfold MiningRun.Beats at beats
  obtain ⟨sessionBeats, -, lastBeat⟩ := List.isChain_append.mp beats
  cases itsSession : mining.session with
  | nil =>
      have only := lastBeat mining.firstJob.timeNow (by simp [itsSession]) mining.reportMs rfl
      omega
  | cons first rest =>
      rw [itsSession, List.map_cons, List.map_cons, List.isChain_cons_cons] at sessionBeats
      have firstBeat := sessionBeats.1
      obtain ⟨newest, isNewest⟩ : ∃ newest, mining.session.getLast? = some newest :=
        ⟨_, List.getLast?_eq_some_getLast (itsSession ▸ List.cons_ne_nil _ _)⟩
      have newestBeat := lastBeat newest.timeNow
        (by simp [List.getLast?_cons, isNewest]) mining.reportMs rfl
      have all : ∀ sample ∈ samplesOf mining.session thd, sample.hashing = true := by
        simp only [samplesOf, List.mem_reverse, List.mem_map]
        rintro sample ⟨call, member, rfl⟩
        exact hashing call member thd isThread
      have total := hashingTime_of_hashing all
        (show (samplesOf mining.session thd).head? = some (newest.sampled thd) by
          simp [samplesOf, isNewest])
        (show (samplesOf mining.session thd).getLast? = some (first.sampled thd) by
          simp [samplesOf, itsSession])
      rw [newest.sampled_time, first.sampled_time] at total
      rw [← itsSession, total, MiningRun.sessionLimit]
      omega

/-- A thread shows the average over its window, or 0 where its log is too short for it. -/
theorem hrSess_cases (beats : mining.Beats) (hashing : mining.HashesWithoutPause type)
    (late : 45 < mining.reportS - mining.firstJob.timestampS) {thd : Nat}
    (isThread : thd ∈ mining.threads type) :
    ∃ window, mining.IsSessionWindow thd window ∧
      mining.shown thd = if window.length ≤ hashLogSize then runRate window else 0 := by
  obtain ⟨window, isWindow⟩ := exists_sessionWindow beats hashing late isThread
  obtain ⟨limit, shown⟩ := sessionTime_executor late
  have capped : sessionTime mining.executor.sessionTimestamp mining.reportS ≤ 86400 := by
    unfold sessionTime
    dsimp only
    split <;> omega
  obtain ⟨miner, found, -⟩ := mem_threadsOf.mp isThread
  obtain ⟨created, memory, rfl⟩ := mining.created miner (List.mem_of_getElem? found)
  have sampled : mining.executor.miners[thd]? =
      some ((Miner.create created memory).sampleAll (mining.calls.map (·.sampled thd))) := by
    rw [miners_executor, List.getElem?_mapIdx, found]
    rfl
  have period : (uint64 (sessionTime mining.executor.sessionTimestamp mining.reportS - 30) : Int) =
      sessionTime mining.executor.sessionTimestamp mining.reportS - 30 :=
    uint64_of_lt (by omega) (by omega)
  have orderly : Orderly (mining.calls.map (·.sampled thd)).reverse :=
    mining.orderly thd (List.getElem?_eq_some_iff.mp found).1
  have rated := getHashrate_cases ⟨created, memory, rfl⟩ orderly sampled rfl
    (show uint64 (sessionTime mining.executor.sessionTimestamp mining.reportS - 30) * 1000 <
      18446744073709551616 by omega)
  have held : retained (mining.calls.map (·.sampled thd)) =
      (samplesOf mining.session thd ++
        samplesOf (mining.before ++ [mining.firstJob]) thd).take hashLogSize := by
    rw [← samplesOf_calls]
    rfl
  rw [period, limit, held] at rated
  refine ⟨window, isWindow, ?_⟩
  rw [MiningRun.shown, threadRates, if_pos shown]
  by_cases short : window.length ≤ hashLogSize
  · rw [if_pos short]
    rcases rated with ⟨other, isOther, rate⟩ | ⟨none, -⟩
    · rw [rate, isOther.unique (isWindow.take short)]
    · exact absurd ⟨window, isWindow.take short⟩ none
  · rw [if_neg short]
    rcases rated with ⟨other, isOther, -⟩ | ⟨-, rate⟩
    · exact absurd ⟨other, isOther⟩ (isWindow.not_take (by omega))
    · exact rate

theorem orderly_session {thd : Nat} (isThread : thd ∈ mining.threads type) :
    Orderly (samplesOf mining.session thd) := by
  obtain ⟨miner, found, -⟩ := mem_threadsOf.mp isThread
  have all := mining.orderly thd (List.getElem?_eq_some_iff.mp found).1
  exact (samplesOf_calls thd ▸ all).sublist (List.sublist_append_left _ _)

theorem unlucky_iff {thd : Nat} {window : List Sample}
    (isWindow : mining.IsSessionWindow thd window) :
    mining.Unlucky thd ↔ hashesFound window = 0 :=
  ⟨fun unlucky => unlucky window isWindow, fun none _ isOther => isOther.unique isWindow ▸ none⟩

theorem held_iff {thd : Nat} {window : List Sample}
    (isWindow : mining.IsSessionWindow thd window) :
    mining.Held thd ↔ window.length ≤ hashLogSize :=
  ⟨fun held => held window isWindow, fun short _ isOther => isOther.unique isWindow ▸ short⟩

theorem sessionLimit_nonneg (late : 45 < mining.reportS - mining.firstJob.timestampS) :
    0 ≤ mining.sessionLimit := by
  unfold MiningRun.sessionLimit
  omega

section Threads

variable {thd : Nat} {window : List Sample}

/-- A thread shows a session average if the log holds its window, or if that average is 0. -/
theorem averaged_iff (late : 45 < mining.reportS - mining.firstJob.timestampS)
    (isThread : thd ∈ mining.threads type) (isWindow : mining.IsSessionWindow thd window)
    (isShown : mining.shown thd = if window.length ≤ hashLogSize then runRate window else 0) :
    mining.Averages thd (mining.shown thd) ↔ mining.Unlucky thd ∨ mining.Held thd := by
  have nonneg := sessionLimit_nonneg late
  have positive : 0 < hashingTime window := nonneg.trans_lt isWindow.exceeds
  rw [unlucky_iff isWindow, held_iff isWindow]
  constructor
  · rintro ⟨recent, isRecent, exceeds, rate, -⟩
    by_cases short : window.length ≤ hashLogSize
    · exact .inr short
    · rw [isShown, if_neg short, eq_comm, runRate_eq_zero_iff (by omega)] at rate
      -- the window is the shortest run, and a longer one found no hash
      have isPrefix : window <+: recent := by
        rcases List.prefix_or_prefix_of_prefix isWindow.recent isRecent with shorter | shorter
        · exact shorter
        · exact isWindow.shortest recent shorter exceeds ▸ List.prefix_refl _
      have orderly : Orderly recent := (orderly_session isThread).sublist isRecent.sublist
      have most : hashesFound window ≤ hashesFound recent :=
        hashingSum_le_of_prefix (orderly.imp And.right) isPrefix
      have least : 0 ≤ hashesFound window :=
        hashingSum_nonneg ((orderly.sublist isPrefix.sublist).imp And.right)
      exact .inl (by omega)
  · intro shows
    have rate : mining.shown thd = runRate window := by
      rw [isShown]
      split
      · rfl
      · exact ((runRate_eq_zero_iff positive).mpr (shows.resolve_right (by assumption))).symm
    exact ⟨window, isWindow.recent, isWindow.exceeds, rate, fun found =>
      rate ▸ mt (runRate_eq_zero_iff positive).mp found⟩

/-- A thread shows 0 if it found no hash, or if the log is too short. -/
theorem shown_eq_zero_iff (late : 45 < mining.reportS - mining.firstJob.timestampS)
    (isWindow : mining.IsSessionWindow thd window)
    (isShown : mining.shown thd = if window.length ≤ hashLogSize then runRate window else 0) :
    mining.shown thd = 0 ↔ mining.Unlucky thd ∨ ¬mining.Held thd := by
  have positive : 0 < hashingTime window := (sessionLimit_nonneg late).trans_lt isWindow.exceeds
  rw [isShown, unlucky_iff isWindow, held_iff isWindow]
  by_cases short : window.length ≤ hashLogSize
  · rw [if_pos short, runRate_eq_zero_iff positive]
    exact (or_iff_left (not_not_intro short)).symm
  · exact iff_of_true (if_neg short) (.inr short)

theorem shown_nonneg (isThread : thd ∈ mining.threads type)
    (isWindow : mining.IsSessionWindow thd window)
    (isShown : mining.shown thd = if window.length ≤ hashLogSize then runRate window else 0) :
    0 ≤ mining.shown thd := by
  rw [isShown]
  split
  · exact runRate_nonneg ((orderly_session isThread).sublist isWindow.recent.sublist)
  · exact le_refl 0

end Threads

/-- What a thread shows, by the two conditions. -/
theorem thread_shows (beats : mining.Beats) (hashing : mining.HashesWithoutPause type)
    (late : 45 < mining.reportS - mining.firstJob.timestampS) {thd : Nat}
    (isThread : thd ∈ mining.threads type) :
    (mining.Averages thd (mining.shown thd) ↔ mining.Unlucky thd ∨ mining.Held thd) ∧
      (mining.shown thd = 0 ↔ mining.Unlucky thd ∨ ¬mining.Held thd) ∧ 0 ≤ mining.shown thd := by
  obtain ⟨window, isWindow, isShown⟩ := hrSess_cases beats hashing late isThread
  exact ⟨averaged_iff late isThread isWindow isShown, shown_eq_zero_iff late isWindow isShown,
    shown_nonneg isThread isWindow isShown⟩

/-- The last of some numbers that are not negative is their sum if the others are all 0. -/
theorem eq_sum_concat_iff {α : Type} {others : List α} {last : α} {value : α → ℚ}
    (nonneg : ∀ other ∈ others, 0 ≤ value other) :
    value last = ((others ++ [last]).map value).sum ↔ ∀ other ∈ others, value other = 0 := by
  rw [List.map_append, List.sum_append, List.map_singleton, List.sum_singleton,
    right_eq_add]
  constructor
  · intro zero other member
    exact List.all_zero_of_le_zero_le_of_sum_eq_zero (List.forall_mem_map.mpr nonneg) zero
      (List.mem_map_of_mem member)
  · intro zero
    exact List.sum_eq_zero (List.forall_mem_map.mpr zero)

/-- The report shows the entries of the threads, and the last of them as the sum. -/
theorem reports_iff {others : List Nat} {last : Nat}
    (split : mining.threads type = others ++ [last]) :
    (∃ msg, mining.report type = some msg ∧ mining.ShowsSession type msg) ↔
      (∀ thd ∈ mining.threads type, mining.Averages thd (mining.shown thd)) ∧
        mining.shown last = ((mining.threads type).map mining.shown).sum := by
  have nonempty : threadsOf mining.executor.miners type ≠ [] := by simp [threadsOf_executor, split]
  obtain ⟨msg, printed, rows, sums⟩ := printHashrateReport_shows nonempty
    mining.executor.sessionTimestamp mining.reportS
  rw [threadsOf_executor] at rows sums
  have entries : ((shownRows msg).map fun row => row.2.hrSess) =
      (mining.threads type).map mining.shown := by
    rw [rows, List.map_map]
    rfl
  have bottom : (((mining.threads type).map (threadRates mining.executor.miners
      (sessionTime mining.executor.sessionTimestamp mining.reportS))).foldl Rates.accumulate
        .zero).hrSess = mining.shown last := by
    rw [foldl_accumulate, split, List.map_append, List.map_singleton, List.getLast?_concat]
    rfl
  constructor
  · rintro ⟨other, isOther, shows⟩
    obtain rfl := Option.some.inj (printed.symm.trans isOther)
    obtain ⟨total, isTotal, isSum⟩ := shows.total
    obtain rfl := List.singleton_inj.mp (sums.symm.trans isTotal)
    refine ⟨fun thd isThread => shows.averages thd _ ?_, ?_⟩
    · exact rows ▸ List.mem_map_of_mem isThread
    · rw [← bottom, isSum, entries]
  · rintro ⟨averages, total⟩
    refine ⟨msg, printed, ?_, fun thd rates member => ?_, _, sums, ?_⟩
    · rw [rows, List.map_map]
      exact List.map_id _
    · rw [rows, List.mem_map] at member
      obtain ⟨thd', isThread, same⟩ := member
      obtain ⟨rfl, rfl⟩ := Prod.mk.inj same
      exact averages _ isThread
    · rw [bottom, total, entries]

/-- Each of some threads in order is unlucky or held, and each but the last unlucky or not held,
exactly if each is unlucky, or held and the last one. -/
theorem forall_or_last_iff {others : List Nat} {last : Nat}
    (earlier : ∀ other ∈ others, other < last) (unlucky held : Nat → Prop) :
    ((∀ thd ∈ others ++ [last], unlucky thd ∨ held thd) ∧
        ∀ other ∈ others, unlucky other ∨ ¬held other) ↔
      ∀ thd ∈ others ++ [last], unlucky thd ∨
        (held thd ∧ ∀ other ∈ others ++ [last], other ≤ thd) := by
  simp only [List.forall_mem_append, List.forall_mem_singleton]
  constructor
  · rintro ⟨⟨othersShow, lastShows⟩, zeros⟩
    constructor
    · intro thd member
      have shows := othersShow thd member
      have zero := zeros thd member
      tauto
    · exact lastShows.imp_right fun isHeld =>
        ⟨isHeld, fun other member => le_of_lt (earlier other member), le_refl last⟩
  · rintro ⟨othersAre, lastIs⟩
    have areUnlucky : ∀ other ∈ others, unlucky other := by
      intro other member
      rcases othersAre other member with isUnlucky | ⟨-, -, highest⟩
      · exact isUnlucky
      · exact absurd (earlier other member) (not_lt.mpr highest)
    exact ⟨⟨fun other member => .inl (areUnlucky other member), lastIs.imp_right And.left⟩,
      fun other member => .inl (areUnlucky other member)⟩

/-- The report of a session shows the session averages of the threads and their sum exactly if
each thread either found no hash in its window, or is the last one and its log holds the
window. -/
theorem showsSession_iff (mining : MiningRun) (type : MinerType) (beats : mining.Beats)
    (hashing : mining.HashesWithoutPause type)
    (late : 45 < mining.reportS - mining.firstJob.timestampS) :
    mining.ReportsSession type ↔
      ∀ thd ∈ mining.threads type, mining.Unlucky thd ∨
        (mining.Held thd ∧ ∀ other ∈ mining.threads type, other ≤ thd) := by
  unfold MiningRun.ReportsSession
  rcases List.eq_nil_or_concat' (mining.threads type) with none | ⟨others, last, split⟩
  · simp [none]
  · have isOther : ∀ other ∈ others, other ∈ mining.threads type := fun other member =>
      split ▸ List.mem_append_left _ member
    have isLast : last ∈ mining.threads type := split ▸ List.mem_append_right _ (.head _)
    have earlier : ∀ other ∈ others, other < last := by
      have sorted := threadsOf_sorted mining.miners type
      rw [← MiningRun.threads, split] at sorted
      exact fun other member => (List.pairwise_append.mp sorted).2.2 other member last (.head _)
    have averages : (∀ thd ∈ mining.threads type, mining.Averages thd (mining.shown thd)) ↔
        ∀ thd ∈ mining.threads type, mining.Unlucky thd ∨ mining.Held thd :=
      forall₂_congr fun _ isThread => (thread_shows beats hashing late isThread).1
    have total : mining.shown last = ((mining.threads type).map mining.shown).sum ↔
        ∀ other ∈ others, mining.Unlucky other ∨ ¬mining.Held other := by
      have nonneg : ∀ other ∈ others, 0 ≤ mining.shown other := fun other member =>
        (thread_shows beats hashing late (isOther other member)).2.2
      rw [split, eq_sum_concat_iff nonneg]
      exact forall₂_congr fun other member =>
        (thread_shows beats hashing late (isOther other member)).2.1
    rw [forall_prop_of_true (List.ne_nil_of_mem isLast), reports_iff split, averages, total, split]
    exact forall_or_last_iff earlier mining.Unlucky mining.Held

end Sessions

/-! ## A sample session -/

/-- A call that finds the same in each thread. -/
def Call.uniform (callback : Callback) (second : Nat) (hashing : Bool) : Call where
  callback := callback
  timeNow := 1000 * (min second 100 + 1)
  timestampS := min second 100 + 1
  sampled := fun _ =>
    ⟨1000 * (min second 100 + 1), hashing, 10 * min second 100, by omega, by omega, by omega,
      by omega⟩
  sampled_time := fun _ => rfl

/-- 47 seconds of 10 hashes a second, with a heartbeat in each. -/
def steadySession : List Call :=
  (List.range 46).map fun second => .uniform .heartbeat (second + 1) true

theorem steadySession_orderly (thd : Nat) :
    Orderly (samplesOf ([] ++ .uniform .newJob 0 false :: steadySession) thd) := by
  have same : samplesOf ([] ++ .uniform .newJob 0 false :: steadySession) thd =
      samplesOf ([] ++ .uniform .newJob 0 false :: steadySession) 0 := rfl
  rw [same]
  unfold Orderly
  decide

/-- That session on some threads of one type. -/
def steady (count : Nat) : MiningRun where
  miners := List.replicate count (.create .randomxCpuMiner fun _ => .empty)
  before := []
  firstJob := .uniform .newJob 0 false
  session := steadySession
  reportMs := 48000
  reportS := 48
  created := fun miner member => ⟨_, _, (List.mem_replicate.mp member).2⟩
  noSession := rfl
  isJob := rfl
  afterEpoch := by decide
  unbroken := by decide
  orderly := fun thd _ => steadySession_orderly thd
  clocks := ⟨0, by decide⟩

theorem steady_beats (count : Nat) : (steady count).Beats := by
  have beats : (steady 0).Beats := by
    unfold MiningRun.Beats
    decide
  exact beats

theorem steady_hashes (count : Nat) : (steady count).HashesWithoutPause .randomxCpuMiner := by
  intro call member thd _
  obtain ⟨second, -, rfl⟩ := List.mem_map.mp member
  rfl

/-- One thread: the report is right. -/
theorem showsSession_iff_steady : (steady 1).ReportsSession .randomxCpuMiner := by
  apply (showsSession_iff (steady 1) .randomxCpuMiner (steady_beats 1) (steady_hashes 1)
    (by decide)).mpr
  have only : (steady 1).threads .randomxCpuMiner = [0] := by decide
  rw [only]
  intro thd isThread
  refine .inr ⟨fun window isWindow => ?_, fun other isOther => ?_⟩
  · have bound := isWindow.recent.length_le
    have length : (samplesOf (steady 1).session thd).length = 46 := by
      simp [samplesOf, steady, steadySession]
    exact (length ▸ bound).trans (by decide)
  · rw [List.mem_singleton.mp isThread, List.mem_singleton.mp isOther]

/-- Two threads: the report shows the average of each, and the second one as their sum. -/
theorem steady_not_reportsSession :
    (steady 2).Beats ∧ (steady 2).HashesWithoutPause .randomxCpuMiner ∧
      45 < (steady 2).reportS - (steady 2).firstJob.timestampS ∧
      (steady 2).shown 0 = 10 ∧ (steady 2).shown 1 = 10 ∧
      ¬(steady 2).ReportsSession .randomxCpuMiner := by
  have first : (steady 2).shown 0 = 10 := by decide +kernel
  have second : (steady 2).shown 1 = 10 := by decide +kernel
  have both : (steady 2).threads .randomxCpuMiner = [0] ++ [1] := by decide
  refine ⟨steady_beats 2, steady_hashes 2, by decide, first, second, fun reports => ?_⟩
  have total := ((reports_iff both).mp (reports (by simp [both]))).2
  simp [both, first, second] at total

end EpicMiner.Report
