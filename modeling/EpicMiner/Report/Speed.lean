import EpicMiner.Report.Session
import Mathlib.Tactic.Linarith

/-!
Owns the bound that the speed of the threads sets to the hash-rate report. The current rates
skip the times without hashing, the peak walks across them with the signs of idle records
still in its differences, and the hash log forgets; whatever the pattern of idle times is, no
number of the report exceeds what the threads can do.
-/

namespace EpicMiner.Report

open EpicMiner.Data

/-! ## Samples of a bounded speed -/

/-- The newest sample first: in no time between two samples did the thread find more hashes
than `speed`, in hashes for a millisecond, allows. -/
def Paced (speed : ℚ) (samples : List Sample) : Prop :=
  samples.Pairwise fun newer older =>
    (newer.hashes - older.hashes : ℚ) ≤ speed * (newer.time - older.time : Int)

section Speed

variable {speed : ℚ} {samples run : List Sample}

theorem Paced.hashesFound_le (paced : Paced speed run) :
    (hashesFound run : ℚ) ≤ speed * hashingTime run := by
  induction run with
  | nil => simp [hashesFound, hashingTime, hashingSum]
  | cons newer run inductionHypothesis =>
      obtain ⟨first, later⟩ := List.pairwise_cons.mp paced
      cases run with
      | nil => simp [hashesFound, hashingTime, hashingSum]
      | cons older run =>
          have behind := inductionHypothesis later
          have pair := first older (.head _)
          rw [hashesFound_pair, hashingTime_pair, Int.cast_add, Int.cast_add, mul_add]
          apply add_le_add _ behind
          unfold counted
          split
          · rw [Int.cast_sub]
            exact pair
          · simp

theorem Paced.runRate_le (paced : Paced speed run) (positive : 0 < hashingTime run) :
    runRate run ≤ 1000 * speed := by
  have time : (0 : ℚ) < hashingTime run := by exact_mod_cast positive
  rw [runRate, div_le_iff₀ time]
  have found := paced.hashesFound_le
  linarith

/-! ## The walk of the peak -/

/-- The walk never sees less time between two records than there was. -/
theorem time_le_uint64 {newer older : Sample} (ordered : older.time ≤ newer.time) :
    newer.time - older.time ≤ uint64 (newer.record.time - older.record.time) := by
  have newerPositive := newer.time_pos
  have olderPositive := older.time_pos
  have newerBound := newer.time_lt
  unfold uint64 Sample.record
  dsimp only
  split <;> split <;> omega

theorem stepRate_le (nonneg : 0 ≤ speed) {newer older : Sample}
    (ordered : older.time ≤ newer.time)
    (pair : (newer.hashes - older.hashes : ℚ) ≤ speed * (newer.time - older.time : Int))
    (steps : 10000 < uint64 (newer.record.time - older.record.time)) :
    stepRate newer.record older.record ≤ 1000 * speed := by
  have delta : (0 : ℚ) < uint64 (newer.record.time - older.record.time) := by
    exact_mod_cast (show 0 < uint64 (newer.record.time - older.record.time) by omega)
  have longer : ((newer.time - older.time : Int) : ℚ) ≤
      uint64 (newer.record.time - older.record.time) := by
    exact_mod_cast time_le_uint64 ordered
  have allowed := mul_le_mul_of_nonneg_left longer nonneg
  have quotient : ((newer.record.hashes - older.record.hashes : Int) : ℚ) /
      uint64 (newer.record.time - older.record.time) ≤ speed := by
    rw [div_le_iff₀ delta, Int.cast_sub]
    exact pair.trans allowed
  rw [stepRate]
  linarith

theorem peakOver_le (nonneg : 0 ≤ speed) (newer : Sample) (rest : List Sample) {peakHps : ℚ}
    (orderly : Orderly (newer :: rest)) (paced : Paced speed (newer :: rest))
    (bound : peakHps ≤ 1000 * speed) :
    peakOver newer.record (rest.map Sample.record) peakHps ≤ 1000 * speed := by
  induction rest generalizing newer peakHps with
  | nil => exact bound
  | cons older rest inductionHypothesis =>
      have withoutNewer : (older :: rest).Sublist (newer :: older :: rest) := List.sublist_cons_self _ _
      have withoutOlder : (newer :: rest).Sublist (newer :: older :: rest) :=
        (List.sublist_cons_self _ _).cons_cons _
      rw [List.map_cons, peakOver]
      split
      · exact bound
      · split
        · rename_i steps
          have step := stepRate_le nonneg ((List.pairwise_cons.mp orderly).1 older (.head _)).1
            ((List.pairwise_cons.mp paced).1 older (.head _)) steps
          apply inductionHypothesis older (orderly.sublist withoutNewer) (paced.sublist withoutNewer)
          split
          · exact step
          · exact bound
        · exact inductionHypothesis newer (orderly.sublist withoutOlder)
            (paced.sublist withoutOlder) bound

end Speed

/-! ## The report -/

/-- No column is negative, and none exceeds the bound. -/
structure Rates.Within (rates : Rates) (bound : ℚ) : Prop where
  hr10s : 0 ≤ rates.hr10s ∧ rates.hr10s ≤ bound
  hr60s : 0 ≤ rates.hr60s ∧ rates.hr60s ≤ bound
  hr10m : 0 ≤ rates.hr10m ∧ rates.hr10m ≤ bound
  hr60m : 0 ≤ rates.hr60m ∧ rates.hr60m ≤ bound
  hrPeak : 0 ≤ rates.hrPeak ∧ rates.hrPeak ≤ bound
  hrSess : 0 ≤ rates.hrSess ∧ rates.hrSess ≤ bound

def Rates.columns (rates : Rates) : List ℚ :=
  [rates.hr10s, rates.hr60s, rates.hr10m, rates.hr60m, rates.hrPeak, rates.hrSess]

/-- `%9.1f` prints a nearest multiple of a tenth. -/
structure PrintedAs (rate shown : ℚ) : Prop where
  tenths : ∃ tenths : ℤ, shown = tenths / 10
  near : |rate - shown| ≤ 1 / 20

theorem PrintedAs.within {rate shown bound : ℚ} (printed : PrintedAs rate shown)
    (nonneg : 0 ≤ rate) (most : rate ≤ bound) : 0 ≤ shown ∧ shown ≤ bound + 1 / 20 := by
  obtain ⟨⟨tenths, rfl⟩, near⟩ := printed
  obtain ⟨below, above⟩ := abs_le.mp near
  have counted : (-1 : ℚ) < tenths := by linarith
  have natural : 0 ≤ tenths := by
    have whole : (-1 : ℤ) < tenths := by exact_mod_cast counted
    omega
  have positive : (0 : ℚ) ≤ tenths := by exact_mod_cast natural
  exact ⟨div_nonneg positive (by norm_num), by linarith⟩

/-- The columns are within the bound, and what is printed for them is within it but for the
rounding to a tenth. -/
structure Rates.ShownWithin (rates : Rates) (bound : ℚ) : Prop where
  exact : rates.Within bound
  printed : ∀ rate ∈ rates.columns, ∀ shown, PrintedAs rate shown →
    0 ≤ shown ∧ shown ≤ bound + 1 / 20

theorem Rates.Within.shown {rates : Rates} {bound : ℚ} (within : rates.Within bound) :
    rates.ShownWithin bound := by
  refine ⟨within, fun rate column shown printed => ?_⟩
  have inside : 0 ≤ rate ∧ rate ≤ bound := by
    simp only [columns, List.mem_cons, List.not_mem_nil, or_false] at column
    rcases column with rfl | rfl | rfl | rfl | rfl | rfl
    · exact within.hr10s
    · exact within.hr60s
    · exact within.hr10m
    · exact within.hr60m
    · exact within.hrPeak
    · exact within.hrSess
  exact printed.within inside.1 inside.2

theorem Rates.zero_within : Rates.zero.Within 0 :=
  ⟨by decide, by decide, by decide, by decide, by decide, by decide⟩

/-- The row of sums stays within the sum of the bounds, its last two columns all the more. -/
theorem Rates.Within.accumulate {sums rates : Rates} {total bound : ℚ} (all : sums.Within total)
    (one : rates.Within bound) : (sums.accumulate rates).Within (total + bound) := by
  have column : ∀ {sum rate : ℚ}, 0 ≤ sum ∧ sum ≤ total → 0 ≤ rate ∧ rate ≤ bound →
      0 ≤ sum + rate ∧ sum + rate ≤ total + bound := by
    intro sum rate sumWithin rateWithin
    exact ⟨add_nonneg sumWithin.1 rateWithin.1, add_le_add sumWithin.2 rateWithin.2⟩
  have totalNonneg : 0 ≤ total := all.hr10s.1.trans all.hr10s.2
  have boundNonneg : 0 ≤ bound := one.hr10s.1.trans one.hr10s.2
  refine ⟨column all.hr10s one.hr10s, column all.hr60s one.hr60s, column all.hr10m one.hr10m,
    column all.hr60m one.hr60m, ⟨le_max_of_le_left all.hrPeak.1, max_le ?_ ?_⟩,
    one.hrSess.1, ?_⟩
  · linarith [all.hrPeak.2]
  · linarith [one.hrPeak.2]
  · show rates.hrSess ≤ total + bound
    linarith [one.hrSess.2]

theorem foldl_accumulate_within {bound : Nat → ℚ} {rates : Nat → Rates} {threads : List Nat}
    (each : ∀ thd ∈ threads, (rates thd).Within (bound thd)) {sums : Rates} {total : ℚ}
    (all : sums.Within total) :
    ((threads.map rates).foldl Rates.accumulate sums).Within (total + (threads.map bound).sum) := by
  induction threads generalizing sums total with
  | nil => simpa using all
  | cons thd threads inductionHypothesis =>
      obtain ⟨first, later⟩ := List.forall_mem_cons.mp each
      have further := inductionHypothesis later (all.accumulate first)
      rw [List.map_cons, List.foldl_cons, List.map_cons, List.sum_cons, ← add_assoc]
      exact further

section Threads

variable {miners : List Miner} {thd : Nat} {miner : Miner} {samples : List Sample} {speed : ℚ}
  (found : miners[thd]? = some miner) (isLog : IsLogOf samples miner.hashLog)
  (orderly : Orderly samples.reverse) (nonneg : 0 ≤ speed) (paced : Paced speed samples.reverse)

include found isLog orderly nonneg paced

theorem getHashrate_within {periodS : Nat} (small : periodS * 1000 < 18446744073709551616) :
    0 ≤ getHashrate miners thd periodS ∧ getHashrate miners thd periodS ≤ 1000 * speed := by
  rcases getHashrate_cases isLog orderly found rfl small with ⟨run, window, rate⟩ | ⟨-, rate⟩
  · have part : run.Sublist samples.reverse := window.recent.sublist.trans (List.take_sublist _ _)
    have positive : 0 < hashingTime run := by
      have exceeds := window.exceeds
      omega
    rw [rate]
    exact ⟨runRate_nonneg (orderly.sublist part), Paced.runRate_le (paced.sublist part) positive⟩
  · rw [rate]
    exact ⟨le_refl 0, by linarith⟩

theorem getHashratePeak_within :
    0 ≤ getHashratePeak miners thd ∧ getHashratePeak miners thd ≤ 1000 * speed := by
  have allowed : (0 : ℚ) ≤ 1000 * speed := by linarith
  rw [getHashratePeak_eq found isLog]
  have part : (retained samples).Sublist samples.reverse := List.take_sublist _ _
  cases held : retained samples with
  | nil => exact ⟨le_refl 0, allowed⟩
  | cons newest rest =>
      rw [held] at part
      exact ⟨le_peakOver _ _ _,
        peakOver_le nonneg newest rest (orderly.sublist part) (paced.sublist part) allowed⟩

theorem threadRates_within (sessionTimestamp now : Int) :
    (threadRates miners (sessionTime sessionTimestamp now) thd).Within (1000 * speed) := by
  have rate := @getHashrate_within _ _ _ _ _ found isLog orderly nonneg paced
  have capped : sessionTime sessionTimestamp now ≤ 24 * 60 * 60 := by
    unfold sessionTime
    dsimp only
    split <;> omega
  refine ⟨rate (by decide), rate (by decide), rate (by decide), rate (by decide),
    getHashratePeak_within found isLog orderly nonneg paced, ?_⟩
  unfold threadRates
  dsimp only
  split
  · rename_i late
    have period : (uint64 (sessionTime sessionTimestamp now - 30) : Int) =
        sessionTime sessionTimestamp now - 30 := uint64_of_lt (by omega) (by omega)
    exact rate (by omega)
  · exact ⟨le_refl 0, by linarith⟩

end Threads

/-- What a printed report shows. -/
theorem shows_of_printed {miners : List Miner} {type : MinerType} {sessionTimestamp now : Int}
    {msg : List Piece} (printed : printHashrateReport miners sessionTimestamp now type = some msg) :
    let rates := threadRates miners (sessionTime sessionTimestamp now)
    shownRows msg = (threadsOf miners type).map (fun thd => (thd, rates thd)) ∧
      shownSums msg = [((threadsOf miners type).map rates).foldl Rates.accumulate .zero] := by
  have nonempty : threadsOf miners type ≠ [] := by
    intro none
    rw [printHashrateReport, foldl_reportThread, show (List.range miners.length).filter
      (fun i => miners[i]?.any (·.type = type)) = [] from none] at printed
    cases printed
  obtain ⟨other, printed', shown⟩ := printHashrateReport_shows nonempty sessionTimestamp now
  obtain rfl := Option.some.inj (printed.symm.trans printed')
  exact shown

/-- Whenever a report is printed, and whatever the threads did until then: if no thread ever was
faster than its speed, then no column of its row is above that speed or below zero, and no
column of the row of sums is above the sum of the speeds. What is printed exceeds them by half
a tenth at most. -/
theorem report_within_speed {miners : List Miner}
    (created : ∀ miner ∈ miners, ∃ type memory, miner = .create type memory) (calls : List Call)
    (orderly : ∀ thd < miners.length, Orderly (samplesOf calls thd)) (speed : Nat → ℚ)
    (nonneg : ∀ thd, 0 ≤ speed thd)
    (paced : ∀ thd < miners.length, Paced (speed thd) (samplesOf calls thd)) (now : Int)
    (type : MinerType) (msg : List Piece)
    (printed : printHashrateReport (Executor.run ⟨miners, 0⟩ calls).miners
      (Executor.run ⟨miners, 0⟩ calls).sessionTimestamp now type = some msg) :
    (∀ thd rates, (thd, rates) ∈ shownRows msg → rates.ShownWithin (1000 * speed thd)) ∧
      ∀ sums ∈ shownSums msg,
        sums.ShownWithin ((shownRows msg).map fun row => 1000 * speed row.1).sum := by
  obtain ⟨rows, sums⟩ := shows_of_printed printed
  have each : ∀ thd ∈ threadsOf (Executor.run ⟨miners, 0⟩ calls).miners type,
      (threadRates (Executor.run ⟨miners, 0⟩ calls).miners
        (sessionTime (Executor.run ⟨miners, 0⟩ calls).sessionTimestamp now) thd).Within
          (1000 * speed thd) := by
    intro thd isThread
    obtain ⟨miner, found, -⟩ := mem_threadsOf.mp isThread
    have sampled := found
    rw [Executor.miners_run, List.getElem?_mapIdx] at sampled
    obtain ⟨start, isStart, rfl⟩ := Option.map_eq_some_iff.mp sampled
    obtain ⟨startType, memory, rfl⟩ := created start (List.mem_of_getElem? isStart)
    have within : thd < miners.length := (List.getElem?_eq_some_iff.mp isStart).1
    exact threadRates_within found ⟨startType, memory, rfl⟩ (orderly thd within) (nonneg thd)
      (paced thd within) _ now
  constructor
  · intro thd rates member
    rw [rows, List.mem_map] at member
    obtain ⟨shown, isThread, same⟩ := member
    obtain ⟨rfl, rfl⟩ := Prod.mk.inj same
    exact (each shown isThread).shown
  · intro shown member
    rw [sums, List.mem_singleton] at member
    rw [member, rows, List.map_map]
    have total := foldl_accumulate_within each Rates.zero_within
    rw [zero_add] at total
    exact total.shown

/-- A thread that mines for a while, loses its job, and mines again. -/
def interruptedSession : List Call :=
  [.uniform .newJob 1 true, .uniform .heartbeat 12 true, .uniform .idleJob 20 false,
    .uniform .newJob 40 true, .uniform .heartbeat 60 true]

/-- Two such threads. -/
def interrupted : Executor :=
  .run ⟨List.replicate 2 (.create .randomxCpuMiner fun _ => .empty), 0⟩ interruptedSession

theorem report_within_speed_interrupted :
    ∃ msg, printHashrateReport interrupted.miners interrupted.sessionTimestamp 61
        .randomxCpuMiner = some msg ∧
      (∀ thd rates, (thd, rates) ∈ shownRows msg → rates.ShownWithin (1000 * (1 / 100))) ∧
        ∀ sums ∈ shownSums msg,
          sums.ShownWithin ((shownRows msg).map fun _ => (1000 * (1 / 100) : ℚ)).sum := by
  have orderly : ∀ thd, Orderly (samplesOf interruptedSession thd) := by
    intro thd
    simp [Orderly, samplesOf, interruptedSession, Call.uniform]
  have paced : ∀ thd, Paced (1 / 100) (samplesOf interruptedSession thd) := by
    intro thd
    norm_num [Paced, samplesOf, interruptedSession, Call.uniform]
  have nonempty : threadsOf interrupted.miners .randomxCpuMiner ≠ [] := by decide
  obtain ⟨msg, printed, -⟩ := printHashrateReport_shows nonempty interrupted.sessionTimestamp 61
  exact ⟨msg, printed, report_within_speed
    (fun miner member => ⟨_, _, (List.mem_replicate.mp member).2⟩) interruptedSession
    (fun thd _ => orderly thd) (fun _ => 1 / 100) (fun _ => by norm_num) (fun thd _ => paced thd)
    61 .randomxCpuMiner msg printed⟩

end EpicMiner.Report
