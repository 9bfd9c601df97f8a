import EpicMiner.Data.Job
import EpicMiner.Data.RingBuffer

/-!
Owns the hash log of a miner: what `record_hashes` inserts, and which samples the
log still holds after any number of insertions. An idle sample is kept with a
negative time, a place that was never written with time 0.
-/

namespace EpicMiner.Report

open EpicMiner.Data

/-- `hash_rec`. -/
structure HashRec where
  time : Int
  hashes : Int
deriving DecidableEq

/-- `hash_rec()`. -/
def HashRec.empty : HashRec := ⟨0, 0⟩

def hashLogSize : Nat := 8192

/-- `hashlog_t`. -/
abbrev HashLog := RingBuffer HashRec hashLogSize

/-- What the reports of the executor read of a `miner`. -/
structure Miner where
  type : MinerType
  isHashing : Bool
  hashCount : Int
  hashLog : HashLog

/-- The constructor, over a log whose memory holds anything. -/
def Miner.create (type : MinerType) (memory : Fin hashLogSize → HashRec) : Miner where
  type := type
  isHashing := false
  hashCount := 0
  hashLog := RingBuffer.fill .empty ⟨0, memory, by decide⟩

/-- `miner::record_hashes`. -/
def Miner.recordHashes (timeNow : Int) (miner : Miner) : Miner :=
  { miner with
    hashLog := miner.hashLog.insert
      ⟨if miner.isHashing then timeNow else -timeNow, miner.hashCount⟩ }

/-! ## Samples -/

/-- What a call of `record_hashes` finds: a positive clock, and the two atomics of the miner
thread. All three are `int64_t`. -/
structure Sample where
  time : Int
  hashing : Bool
  hashes : Int
  time_pos : 0 < time
  time_lt : time < 9223372036854775808
  hashes_nonneg : 0 ≤ hashes
  hashes_lt : hashes < 9223372036854775808

def Sample.record (sample : Sample) : HashRec where
  time := if sample.hashing then sample.time else -sample.time
  hashes := sample.hashes

theorem Sample.record_time_ne_zero (sample : Sample) : sample.record.time ≠ 0 := by
  have positive := sample.time_pos
  unfold record
  dsimp only
  split <;> omega

theorem Sample.record_time_pos_iff (sample : Sample) :
    0 < sample.record.time ↔ sample.hashing = true := by
  have positive := sample.time_pos
  unfold record
  dsimp only
  split
  · exact iff_of_true positive (by assumption)
  · exact iff_of_false (by omega) (by assumption)

theorem Sample.record_time_of_hashing {sample : Sample} (hashing : sample.hashing = true) :
    sample.record.time = sample.time :=
  if_pos hashing

/-- The thread sets its atomics, and the event loop records them. -/
def Miner.sample (miner : Miner) (sample : Sample) : Miner :=
  { miner with isHashing := sample.hashing, hashCount := sample.hashes }.recordHashes sample.time

def Miner.sampleAll (miner : Miner) (samples : List Sample) : Miner :=
  samples.foldl sample miner

/-- Clock and hash count do not run backwards; the newest sample stands first. -/
def Orderly (samples : List Sample) : Prop :=
  samples.Pairwise fun newer older => older.time ≤ newer.time ∧ older.hashes ≤ newer.hashes

/-- The samples that the log still holds, the newest first. -/
def retained (samples : List Sample) : List Sample :=
  samples.reverse.take hashLogSize

theorem retained_length_le (samples : List Sample) : (retained samples).length ≤ hashLogSize := by
  rw [retained, List.length_take]
  exact Nat.min_le_left _ _

theorem retained_orderly {samples : List Sample} (orderly : Orderly samples.reverse) :
    Orderly (retained samples) :=
  orderly.sublist (List.take_sublist _ _)

theorem hashLog_sampleAll (miner : Miner) (samples : List Sample) :
    (miner.sampleAll samples).hashLog =
      miner.hashLog.insertAll (samples.map Sample.record) := by
  unfold Miner.sampleAll RingBuffer.insertAll
  rw [List.foldl_map]
  induction samples generalizing miner with
  | nil => rfl
  | cons sample samples inductionHypothesis => exact inductionHypothesis (miner.sample sample)

/-! ## Reading the log -/

/-- The log of a miner that was sampled so since it was made. -/
def IsLogOf (samples : List Sample) (log : HashLog) : Prop :=
  ∃ type memory, log = ((Miner.create type memory).sampleAll samples).hashLog

/-- The places that the loops of the executor visit. -/
def cells (log : HashLog) : List HashRec :=
  (List.range hashLogSize).map log.get

theorem get_isLogOf {samples : List Sample} {log : HashLog} (isLog : IsLogOf samples log) {idx : Nat}
    (within : idx < hashLogSize) :
    log.get idx = (samples.reverse.map Sample.record)[idx]?.getD .empty := by
  obtain ⟨type, memory, rfl⟩ := isLog
  rw [hashLog_sampleAll]
  have read := (RingBuffer.get_insertAll_fill (by decide) ⟨0, memory, by decide⟩ .empty
    (samples.map Sample.record) idx within).2
  rw [← List.map_reverse] at read
  exact read

/-- First the samples held, then places never written. -/
theorem cells_isLogOf {samples : List Sample} {log : HashLog} (isLog : IsLogOf samples log) :
    cells log = (retained samples).map Sample.record ++
      List.replicate (hashLogSize - (retained samples).length) .empty := by
  have bound := retained_length_le samples
  apply List.ext_getElem?
  intro idx
  by_cases within : idx < hashLogSize
  · have read : (cells log)[idx]? = some (log.get idx) := by
      simp [cells, List.getElem?_range within]
    rw [read, get_isLogOf isLog within, List.getElem?_append, List.length_map]
    by_cases held : idx < (retained samples).length
    · have listed : idx < samples.reverse.length := by
        rw [retained, List.length_take] at held
        omega
      rw [if_pos held, List.getElem?_map, List.getElem?_map, retained, List.getElem?_take,
        if_pos within, List.getElem?_eq_getElem listed]
      rfl
    · have behind : samples.reverse.length ≤ idx := by
        rw [retained, List.length_take] at held
        omega
      rw [if_neg held, List.getElem?_replicate, if_pos (by omega),
        List.getElem?_eq_none (by simpa using behind)]
      rfl
  · rw [List.getElem?_eq_none (by simpa [cells] using within), List.getElem?_eq_none]
    rw [List.length_append, List.length_map, List.length_replicate]
    omega

end EpicMiner.Report
