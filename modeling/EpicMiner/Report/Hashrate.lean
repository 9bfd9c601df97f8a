import EpicMiner.Report.HashLog
import Mathlib.Algebra.Order.Field.Rat
import Mathlib.Tactic.NormNum
import Mathlib.Tactic.Ring

/-!
Owns `get_hashrate`: a walk from the newest sample back that adds up the pairs of
adjacent samples with both of them hashing, until their time exceeds the period.
The walk is compared with the shortest run of samples whose hashing time does.
-/

namespace EpicMiner.Report

open EpicMiner.Data

/-! ## The walk -/

/-- `hash_count` and `time_count_ms`, both `uint64_t`. -/
structure Sums where
  hashCount : Nat
  timeCountMs : Nat
deriving DecidableEq

def Sums.zero : Sums := ⟨0, 0⟩

def Sums.add (sums : Sums) (newer older : HashRec) : Sums where
  timeCountMs := uint64 (sums.timeCountMs + uint64 (newer.time - older.time))
  hashCount := uint64 (sums.hashCount + uint64 (newer.hashes - older.hashes))

/-- The loop of `get_hashrate` over the given places. -/
def hashrateFrom (log : HashLog) (periodS : Nat) : List Nat → Sums → Option Sums
  | [], _ => none
  | i :: rest, sums =>
      if (log.get i).time = 0 then none
      else if 0 < (log.get (i - 1)).time ∧ 0 < (log.get i).time then
        let counted := sums.add (log.get (i - 1)) (log.get i)
        if uint64 (periodS * 1000) < counted.timeCountMs then some counted
        else hashrateFrom log periodS rest counted
      else hashrateFrom log periodS rest sums

/-- The two sums that `get_hashrate` divides, none when it returns 0. -/
def hashrateSums (log : HashLog) (periodS : Nat) : Option Sums :=
  if (log.get 0).time = 0 then none
  else hashrateFrom log periodS (List.range' 1 (hashLogSize - 1)) .zero

def Sums.rate (sums : Sums) : ℚ :=
  (sums.hashCount : ℚ) / sums.timeCountMs * 1000

/-- `executor::get_hashrate`, in exact arithmetic. -/
def getHashrate (miners : List Miner) (thdIdx periodS : Nat) : ℚ :=
  match miners[thdIdx]? with
  | none => 0
  | some miner => ((hashrateSums miner.hashLog periodS).map Sums.rate).getD 0

/-! ## Hashing time -/

/-- The difference of two adjacent samples, counted if both are hashing. -/
def counted (value : Sample → Int) (newer older : Sample) : Int :=
  if newer.hashing = true ∧ older.hashing = true then value newer - value older else 0

/-- The differences of adjacent samples, added up. -/
def hashingSum (value : Sample → Int) : List Sample → Int
  | newer :: older :: rest => counted value newer older + hashingSum value (older :: rest)
  | _ => 0

def hashingTime : List Sample → Int :=
  hashingSum Sample.time

def hashesFound : List Sample → Int :=
  hashingSum Sample.hashes

/-- The shortest run of most recent samples whose hashing time exceeds the limit. -/
structure IsWindow (limit : Int) (samples run : List Sample) : Prop where
  recent : run <+: samples
  exceeds : limit < hashingTime run
  shortest : ∀ shorter, shorter <+: run → limit < hashingTime shorter → shorter = run

theorem hashingSum_short (value : Sample → Int) {run : List Sample} (short : run.length ≤ 1) :
    hashingSum value run = 0 := by
  match run, short with
  | [], _ => rfl
  | [_], _ => rfl
  | _ :: _ :: _, long => simp at long

theorem hashingTime_pair (newer older : Sample) (rest : List Sample) :
    hashingTime (newer :: older :: rest) =
      counted Sample.time newer older + hashingTime (older :: rest) := rfl

theorem hashesFound_pair (newer older : Sample) (rest : List Sample) :
    hashesFound (newer :: older :: rest) =
      counted Sample.hashes newer older + hashesFound (older :: rest) := rfl

section Windows

variable {limit : Int} {newer older : Sample} {rest run : List Sample}

/-- What the pair in front adds. -/
theorem hashingSum_cons (value : Sample → Int) (isPrefix : run <+: older :: rest)
    (nonempty : run ≠ []) :
    hashingSum value (newer :: run) = counted value newer older + hashingSum value run := by
  cases run with
  | nil => exact absurd rfl nonempty
  | cons first run =>
      have same := (List.cons_prefix_cons.mp isPrefix).1
      rw [hashingSum, same]

theorem hashingTime_cons (isPrefix : run <+: older :: rest) (nonempty : run ≠ []) :
    hashingTime (newer :: run) = counted Sample.time newer older + hashingTime run :=
  hashingSum_cons Sample.time isPrefix nonempty

theorem hashesFound_cons (isPrefix : run <+: older :: rest) (nonempty : run ≠ []) :
    hashesFound (newer :: run) = counted Sample.hashes newer older + hashesFound run :=
  hashingSum_cons Sample.hashes isPrefix nonempty

theorem IsWindow.two_le (window : IsWindow limit rest run) (nonneg : 0 ≤ limit) :
    2 ≤ run.length := by
  by_contra short
  have zero := hashingSum_short Sample.time (show run.length ≤ 1 by omega)
  have exceeds := window.exceeds
  rw [hashingTime, zero] at exceeds
  omega

theorem IsWindow.ne_nil (window : IsWindow limit rest run) (nonneg : 0 ≤ limit) : run ≠ [] :=
  List.ne_nil_of_length_pos (Nat.lt_of_lt_of_le Nat.zero_lt_two (window.two_le nonneg))

/-- One sample more in front. -/
theorem IsWindow.cons (nonneg : 0 ≤ limit) (within : counted Sample.time newer older ≤ limit)
    (window : IsWindow (limit - counted Sample.time newer older) (older :: rest) run) :
    IsWindow limit (newer :: older :: rest) (newer :: run) := by
  have nonempty := window.ne_nil (by omega)
  refine ⟨List.cons_prefix_cons.mpr ⟨rfl, window.recent⟩, ?_, fun shorter isPrefix exceeds => ?_⟩
  · have exceeds := window.exceeds
    rw [hashingTime_cons window.recent nonempty]
    omega
  · cases shorter with
    | nil =>
        change limit < 0 at exceeds
        omega
    | cons first shorter =>
        obtain ⟨rfl, tailPrefix⟩ := List.cons_prefix_cons.mp isPrefix
        have some : shorter ≠ [] := by
          rintro rfl
          change limit < 0 at exceeds
          omega
        rw [hashingTime_cons (tailPrefix.trans window.recent) some] at exceeds
        rw [window.shortest shorter tailPrefix (by omega)]

/-- No run exceeds the limit when none behind the first pair exceeds what that pair leaves. -/
theorem hashingTime_le_of_tail (nonneg : 0 ≤ limit)
    (bounded : ∀ run, run <+: older :: rest →
      hashingTime run ≤ limit - counted Sample.time newer older)
    (isPrefix : run <+: newer :: older :: rest) : hashingTime run ≤ limit := by
  cases run with
  | nil => exact nonneg
  | cons first run =>
      obtain ⟨rfl, tailPrefix⟩ := List.cons_prefix_cons.mp isPrefix
      by_cases some : run = []
      · subst some
        exact nonneg
      · have bound := bounded run tailPrefix
        rw [hashingTime_cons tailPrefix some]
        omega

/-- A first pair that exceeds the limit is the window. -/
theorem IsWindow.pair (nonneg : 0 ≤ limit) (exceeds : limit < counted Sample.time newer older) :
    IsWindow limit (newer :: older :: rest) [newer, older] := by
  have time : hashingTime [newer, older] = counted Sample.time newer older := Int.add_zero _
  refine ⟨⟨rest, rfl⟩, time ▸ exceeds, fun shorter isPrefix exceeds => ?_⟩
  by_contra different
  have short : shorter.length ≤ 1 := by
    have bound := isPrefix.length_le
    rw [List.length_cons, List.length_singleton] at bound
    by_contra long
    exact different (isPrefix.eq_of_length (by simp; omega))
  rw [hashingTime, hashingSum_short _ short] at exceeds
  omega

end Windows

/-! ## The walk over samples -/

/-- The loop over what the places hold. -/
def rateOver (limit : Nat) : HashRec → List HashRec → Sums → Option Sums
  | _, [], _ => none
  | newer, older :: rest, sums =>
      if older.time = 0 then none
      else if 0 < newer.time ∧ 0 < older.time then
        if limit < (sums.add newer older).timeCountMs then some (sums.add newer older)
        else rateOver limit older rest (sums.add newer older)
      else rateOver limit older rest sums

theorem hashrateFrom_eq (log : HashLog) (periodS count i : Nat) (sums : Sums) :
    hashrateFrom log periodS (List.range' (i + 1) count) sums =
      rateOver (uint64 (periodS * 1000)) (log.get i) ((List.range' (i + 1) count).map log.get)
        sums := by
  induction count generalizing i sums with
  | zero => rfl
  | succ count inductionHypothesis =>
      rw [List.range'_succ, List.map_cons, hashrateFrom, rateOver, Nat.add_sub_cancel]
      simp only [inductionHypothesis]

theorem cells_eq_cons (log : HashLog) :
    cells log = log.get 0 :: (List.range' 1 (hashLogSize - 1)).map log.get := by
  rw [cells, List.range_eq_range', ← List.map_cons]
  rfl

/-- Places never written end the walk. -/
theorem rateOver_append_empty (limit : Nat) (newer : HashRec) (samples : List Sample) (count : Nat)
    (sums : Sums) :
    rateOver limit newer (samples.map Sample.record ++ List.replicate count .empty) sums =
      rateOver limit newer (samples.map Sample.record) sums := by
  induction samples generalizing newer sums with
  | nil =>
      cases count with
      | zero => rfl
      | succ count => rfl
  | cons sample samples inductionHypothesis =>
      simp only [List.map_cons, List.cons_append, rateOver, inductionHypothesis]

/-- The walk over a log that holds samples. -/
theorem hashrateSums_eq {samples : List Sample} {log : HashLog} (isLog : IsLogOf samples log)
    {newest : Sample} {rest : List Sample} (held : retained samples = newest :: rest)
    (periodS : Nat) :
    hashrateSums log periodS =
      rateOver (uint64 (periodS * 1000)) newest.record (rest.map Sample.record) .zero := by
  have first := cells_isLogOf isLog
  rw [held, cells_eq_cons, List.map_cons, List.cons_append] at first
  obtain ⟨newestPlace, otherPlaces⟩ := List.cons_eq_cons.mp first
  rw [hashrateSums, hashrateFrom_eq, newestPlace, otherPlaces, rateOver_append_empty,
    if_neg newest.record_time_ne_zero]

theorem hashrateSums_none {samples : List Sample} {log : HashLog} (isLog : IsLogOf samples log)
    (held : retained samples = []) (periodS : Nat) : hashrateSums log periodS = none := by
  have first := cells_isLogOf isLog
  rw [held, cells_eq_cons, List.map_nil, List.nil_append] at first
  have newestPlace : log.get 0 = .empty := (List.cons_eq_cons.mp first).1
  rw [hashrateSums, newestPlace]
  rfl

/-- The sums so far leave room for all that is still to come. -/
structure Sums.Room (sums : Sums) (newer : Sample) : Prop where
  time : sums.timeCountMs + newer.time < 9223372036854775808
  hashes : sums.hashCount + newer.hashes < 9223372036854775808

theorem Sums.Room.add {sums : Sums} {newer older : Sample} (room : sums.Room newer)
    (ordered : older.time ≤ newer.time ∧ older.hashes ≤ newer.hashes)
    (hashing : newer.hashing = true ∧ older.hashing = true) :
    ((sums.add newer.record older.record).timeCountMs : Int) =
        sums.timeCountMs + (newer.time - older.time) ∧
      ((sums.add newer.record older.record).hashCount : Int) =
        sums.hashCount + (newer.hashes - older.hashes) := by
  have timeRoom := room.time
  have hashRoom := room.hashes
  have positive := older.time_pos
  have nonneg := older.hashes_nonneg
  constructor
  · simp only [Sums.add, Sample.record_time_of_hashing hashing.1,
      Sample.record_time_of_hashing hashing.2]
    rw [uint64_of_lt (by omega) (by rw [uint64_of_lt (by omega) (by omega)]; omega),
      uint64_of_lt (by omega) (by omega)]
  · simp only [Sums.add, Sample.record]
    rw [uint64_of_lt (by omega) (by rw [uint64_of_lt (by omega) (by omega)]; omega),
      uint64_of_lt (by omega) (by omega)]

/-- One round adds what the pair counts, without a wrap. -/
theorem rateOver_round {limit : Nat} {newer older : Sample} {sums : Sums} (rest : List HashRec)
    (room : sums.Room newer) (ordered : older.time ≤ newer.time ∧ older.hashes ≤ newer.hashes)
    (within : sums.timeCountMs ≤ limit) :
    ∃ next : Sums, next.Room older ∧
      (next.timeCountMs : Int) = sums.timeCountMs + counted Sample.time newer older ∧
      (next.hashCount : Int) = sums.hashCount + counted Sample.hashes newer older ∧
      rateOver limit newer.record (older.record :: rest) sums =
        if limit < next.timeCountMs then some next
        else rateOver limit older.record rest next := by
  have timeRoom := room.time
  have hashRoom := room.hashes
  rw [rateOver, if_neg older.record_time_ne_zero]
  simp only [Sample.record_time_pos_iff, counted]
  by_cases hashing : newer.hashing = true ∧ older.hashing = true
  · obtain ⟨time, hashes⟩ := room.add ordered hashing
    simp only [if_pos hashing]
    exact ⟨_, ⟨by omega, by omega⟩, time, hashes, rfl⟩
  · simp only [if_neg hashing, Int.add_zero]
    exact ⟨sums, ⟨by omega, by omega⟩, rfl, rfl, (if_neg (Nat.not_lt.mpr within)).symm⟩

/-- The walk stops at the window, with the sums of its pairs added, or goes through all
samples. The induction is on the samples behind the newest one. -/
theorem rateOver_cases (limit : Nat) (newer : Sample) (rest : List Sample) (sums : Sums)
    (orderly : Orderly (newer :: rest)) (room : sums.Room newer)
    (within : sums.timeCountMs ≤ limit) :
    (∃ run ended, IsWindow (limit - sums.timeCountMs) (newer :: rest) run ∧
      rateOver limit newer.record (rest.map Sample.record) sums = some ended ∧
      (ended.timeCountMs : Int) = sums.timeCountMs + hashingTime run ∧
      (ended.hashCount : Int) = sums.hashCount + hashesFound run) ∨
    ((∀ run, run <+: newer :: rest → hashingTime run ≤ limit - sums.timeCountMs) ∧
      rateOver limit newer.record (rest.map Sample.record) sums = none) := by
  induction rest generalizing newer sums with
  | nil =>
      refine .inr ⟨fun run isPrefix => ?_, rfl⟩
      rw [hashingTime, hashingSum_short _ (by simpa using isPrefix.length_le)]
      omega
  | cons older rest inductionHypothesis =>
      obtain ⟨newerOrder, olderOrderly⟩ := List.pairwise_cons.mp orderly
      obtain ⟨next, roomed, time, hashes, walked⟩ :=
        rateOver_round (rest.map Sample.record) room (newerOrder older (.head _)) within
      rw [List.map_cons, walked]
      have pairSum : ∀ value, hashingSum value [newer, older] = counted value newer older :=
        fun value => Int.add_zero _
      by_cases exceeds : limit < next.timeCountMs
      · rw [if_pos exceeds]
        refine .inl ⟨[newer, older], next, .pair (by omega) (by omega), rfl, ?_, ?_⟩
        · rw [hashingTime, pairSum, time]
        · rw [hashesFound, pairSum, hashes]
      · rw [if_neg exceeds]
        have left : (limit : Int) - next.timeCountMs =
            limit - sums.timeCountMs - counted Sample.time newer older := by omega
        rcases inductionHypothesis older next olderOrderly roomed (not_lt.mp exceeds) with
          ⟨run, ended, window, walked, timeEnded, hashesEnded⟩ | ⟨bounded, walked⟩
        · rw [left] at window
          have nonempty := window.ne_nil (by omega)
          refine .inl ⟨newer :: run, ended, window.cons (by omega) (by omega), walked, ?_, ?_⟩
          · rw [hashingTime_cons window.recent nonempty, timeEnded, time]
            exact Int.add_assoc ..
          · rw [hashesFound_cons window.recent nonempty, hashesEnded, hashes]
            exact Int.add_assoc ..
        · rw [left] at bounded
          exact .inr ⟨fun run isPrefix => hashingTime_le_of_tail (by omega) bounded isPrefix,
            walked⟩

/-! ## The rate -/

theorem IsWindow.unique {limit : Int} {samples run other : List Sample}
    (window : IsWindow limit samples run) (window' : IsWindow limit samples other) :
    run = other := by
  rcases List.prefix_or_prefix_of_prefix window.recent window'.recent with shorter | shorter
  · exact window'.shortest run shorter window.exceeds
  · exact (window.shortest other shorter window'.exceeds).symm

section Rates

variable {samples : List Sample} {log : HashLog}

/-- The walk ends with the sums of the window, or there is no window. -/
theorem hashrateSums_cases (isLog : IsLogOf samples log) (orderly : Orderly samples.reverse)
    {periodS : Nat} (small : periodS * 1000 < 18446744073709551616) :
    (∃ run ended, IsWindow (1000 * periodS) (retained samples) run ∧
      hashrateSums log periodS = some ended ∧ (ended.timeCountMs : Int) = hashingTime run ∧
      (ended.hashCount : Int) = hashesFound run) ∨
    ((¬∃ run, IsWindow (1000 * periodS) (retained samples) run) ∧
      hashrateSums log periodS = none) := by
  have limit : (uint64 (periodS * 1000) : Int) = 1000 * periodS := by
    rw [uint64_of_lt (by omega) (by omega), Int.mul_comm]
  cases held : retained samples with
  | nil =>
      refine .inr ⟨?_, hashrateSums_none isLog held periodS⟩
      rintro ⟨run, window⟩
      have short := window.two_le (by omega)
      rw [List.prefix_nil.mp window.recent] at short
      exact absurd short (by decide)
  | cons newest rest =>
      have orderly := held ▸ retained_orderly orderly
      have room : Sums.zero.Room newest := by
        have timeBound := newest.time_lt
        have hashBound := newest.hashes_lt
        exact ⟨by simpa [Sums.zero] using timeBound, by simpa [Sums.zero] using hashBound⟩
      rw [hashrateSums_eq isLog held]
      rcases rateOver_cases (uint64 (periodS * 1000)) newest rest .zero orderly room
          (Nat.zero_le _) with ⟨run, ended, window, walked, time, hashes⟩ | ⟨bounded, walked⟩
      · rw [limit, show (Sums.zero.timeCountMs : Int) = 0 from rfl, Int.sub_zero] at window
        refine .inl ⟨run, ended, window, walked, ?_, ?_⟩
        · exact time.trans (Int.zero_add _)
        · exact hashes.trans (Int.zero_add _)
      · refine .inr ⟨?_, walked⟩
        rintro ⟨run, window⟩
        have bound := bounded run window.recent
        rw [limit, show (Sums.zero.timeCountMs : Int) = 0 from rfl, Int.sub_zero] at bounded
        exact absurd window.exceeds (not_lt.mpr (bounded run window.recent))

/-- The rate over a run of samples. -/
def runRate (run : List Sample) : ℚ :=
  1000 * hashesFound run / hashingTime run

theorem getHashrate_cases (isLog : IsLogOf samples log) (orderly : Orderly samples.reverse)
    {miners : List Miner} {thdIdx : Nat} {miner : Miner} (found : miners[thdIdx]? = some miner)
    (itsLog : miner.hashLog = log) {periodS : Nat}
    (small : periodS * 1000 < 18446744073709551616) :
    (∃ run, IsWindow (1000 * periodS) (retained samples) run ∧
      getHashrate miners thdIdx periodS = runRate run) ∨
    ((¬∃ run, IsWindow (1000 * periodS) (retained samples) run) ∧
      getHashrate miners thdIdx periodS = 0) := by
  have rated : getHashrate miners thdIdx periodS =
      ((hashrateSums log periodS).map Sums.rate).getD 0 := by
    rw [getHashrate, found, ← itsLog]
  rcases hashrateSums_cases isLog orderly small with
    ⟨run, ended, window, walked, time, hashes⟩ | ⟨none, walked⟩
  · refine .inl ⟨run, window, ?_⟩
    rw [rated, walked, runRate, ← time, ← hashes]
    simp only [Option.map_some, Option.getD_some, Sums.rate, Int.cast_natCast]
    ring
  · refine .inr ⟨none, ?_⟩
    rw [rated, walked]
    rfl

/-- A place with a positive time holds a hashing sample. -/
theorem sample_of_time_pos (isLog : IsLogOf samples log) {i : Nat} (within : i < hashLogSize)
    (positive : 0 < (log.get i).time) :
    ∃ sample, samples.reverse[i]? = some sample ∧ sample.hashing = true ∧
      log.get i = sample.record := by
  have place := get_isLogOf isLog within
  rw [List.getElem?_map] at place
  cases found : samples.reverse[i]? with
  | none =>
      rw [found] at place
      rw [place] at positive
      exact absurd positive (by decide)
  | some sample =>
      rw [found] at place
      have recorded : log.get i = sample.record := place
      rw [recorded, sample.record_time_pos_iff] at positive
      exact ⟨sample, rfl, positive, recorded⟩

/-- Adjacent places that both hold hashing samples hold them in order. -/
theorem get_ordered (isLog : IsLogOf samples log) (orderly : Orderly samples.reverse) {i : Nat}
    (within : i + 1 < hashLogSize) (newer : 0 < (log.get i).time)
    (older : 0 < (log.get (i + 1)).time) :
    (log.get (i + 1)).time ≤ (log.get i).time ∧ (log.get (i + 1)).hashes ≤ (log.get i).hashes := by
  obtain ⟨first, isFirst, firstHashing, firstPlace⟩ :=
    sample_of_time_pos isLog (Nat.lt_of_succ_lt within) newer
  obtain ⟨second, isSecond, secondHashing, secondPlace⟩ := sample_of_time_pos isLog within older
  obtain ⟨firstBound, firstAt⟩ := List.getElem?_eq_some_iff.mp isFirst
  obtain ⟨secondBound, secondAt⟩ := List.getElem?_eq_some_iff.mp isSecond
  have ordered := List.pairwise_iff_getElem.mp orderly i (i + 1) firstBound secondBound (by omega)
  rw [firstAt, secondAt] at ordered
  rw [firstPlace, secondPlace, Sample.record_time_of_hashing firstHashing,
    Sample.record_time_of_hashing secondHashing]
  exact ordered

/-- Idle time is never counted. -/
structure RatesHashing (samples : List Sample) (log : HashLog) (periodS : Nat) (rate : ℚ) :
    Prop where
  timeAdded : ∀ i, i + 1 < hashLogSize → 0 < (log.get i).time → 0 < (log.get (i + 1)).time →
    0 ≤ (log.get i).time - (log.get (i + 1)).time
  hashesAdded : ∀ i, i + 1 < hashLogSize → 0 < (log.get i).time → 0 < (log.get (i + 1)).time →
    0 ≤ (log.get i).hashes - (log.get (i + 1)).hashes
  divisor : ∀ sums, hashrateSums log periodS = some sums → sums.timeCountMs ≠ 0
  window : ∀ run, IsWindow (1000 * periodS) (retained samples) run →
    rate = 1000 * hashesFound run / hashingTime run
  otherwise : (¬∃ run, IsWindow (1000 * periodS) (retained samples) run) → rate = 0

/-- For every log, idle and hashing samples in any pattern, `get_hashrate` is the rate over the
shortest run of samples whose hashing time exceeds the period. -/
theorem getHashrate_ratesHashing (isLog : IsLogOf samples log)
    (orderly : Orderly samples.reverse) {miners : List Miner} {thdIdx : Nat} {miner : Miner}
    (found : miners[thdIdx]? = some miner) (itsLog : miner.hashLog = log) {periodS : Nat}
    (small : periodS * 1000 < 2 ^ 64) :
    RatesHashing samples log periodS (getHashrate miners thdIdx periodS) := by
  have ordered := fun i => @get_ordered samples log isLog orderly i
  have cases := getHashrate_cases isLog orderly found itsLog small
  constructor
  · exact fun i within newer older => Int.sub_nonneg.mpr (ordered i within newer older).1
  · exact fun i within newer older => Int.sub_nonneg.mpr (ordered i within newer older).2
  · intro sums ended
    rcases hashrateSums_cases isLog orderly small with
      ⟨run, counted, window, walked, time, -⟩ | ⟨-, walked⟩
    · rw [walked] at ended
      cases ended
      have exceeds := window.exceeds
      omega
    · rw [walked] at ended
      cases ended
  · intro run window
    rcases cases with ⟨other, window', rate⟩ | ⟨none, -⟩
    · rw [rate, window.unique window']
      rfl
    · exact absurd ⟨run, window⟩ none
  · intro none
    rcases cases with ⟨other, window, -⟩ | ⟨-, rate⟩
    · exact absurd ⟨other, window⟩ none
    · exact rate

end Rates

/-! ## A sample log -/

/-- An idle sample, and two that lie 11 seconds and 110 hashes apart. -/
def warmUp : List Sample :=
  [⟨1000, false, 0, by decide, by decide, by decide, by decide⟩,
    ⟨2000, true, 5, by decide, by decide, by decide, by decide⟩,
    ⟨13000, true, 115, by decide, by decide, by decide, by decide⟩]

def Miner.sampled (samples : List Sample) : Miner :=
  (Miner.create .randomxCpuMiner fun _ => .empty).sampleAll samples

theorem Miner.sampled_isLogOf (samples : List Sample) :
    IsLogOf samples (Miner.sampled samples).hashLog :=
  ⟨_, _, rfl⟩

theorem getHashrate_ratesHashing_warmUp : getHashrate [Miner.sampled warmUp] 0 10 = 10 := by
  have rates := getHashrate_ratesHashing (Miner.sampled_isLogOf warmUp)
    (by simp [Orderly, warmUp]) (show [Miner.sampled warmUp][0]? = some _ from rfl) rfl
    (show 10 * 1000 < 2 ^ 64 by decide)
  have window : IsWindow (1000 * (10 : Nat)) (retained warmUp) (warmUp.reverse.take 2) :=
    .pair (by decide) (by decide)
  rw [rates.window _ window]
  norm_num [warmUp, hashesFound, hashingTime, hashingSum, counted]

end EpicMiner.Report
