import EpicMiner.Data.RingBuffer
import Mathlib.Data.Nat.SuccPred
import Mathlib.Order.CompletePartialOrder
import Mathlib.Order.SuccPred.IntervalSucc

/-!
Owns the split of the RandomX dataset among the threads that build it. For every
number of threads but 0 each item is initialized by exactly one of them; the
number 0, which stands for an unknown one, ends the builder.
-/

namespace EpicMiner.Mining

open EpicMiner.Data

/-! ## The split -/

/-- What ends the builder thread, and the process with it. -/
inductive BuildFault where
  /-- `std::length_error` of `std::vector::reserve`. -/
  | lengthError
  | divisionByZero
deriving DecidableEq

/-- The items of a call of `randomx_init_dataset`. -/
structure InitRange where
  startItem : Nat
  itemCount : Nat
deriving DecidableEq

/-- `rx_dataset::calculate_thd`. -/
def calculateThd (workSize idx thdCnt : Nat) : Except BuildFault InitRange :=
  if thdCnt = 0 then .error .divisionByZero
  else
    let batchSize := workSize / thdCnt
    .ok
      { startItem := uint64 (idx * batchSize)
        itemCount :=
          if idx = uint64 (thdCnt - 1) then uint64 (batchSize + workSize % thdCnt) else batchSize }

/-- `max_size()` of a vector of threads, which are as large as a pointer. -/
def threadVectorMaxSize : Nat := 1152921504606846975

/-- The size that `dataset_thd_main` reserves, and the calls of its threads. -/
structure DatasetBuild where
  reserved : Nat
  ranges : List InitRange

/-- `rx_dataset::dataset_thd_main`. The range 0 is its own. -/
def datasetThdMain (workSize : UInt64) (hardwareConcurrency : UInt32) :
    Except BuildFault DatasetBuild := do
  let thdcnt := hardwareConcurrency.toNat
  let reserved := uint64 (thdcnt - 1)
  if reserved > threadVectorMaxSize then throw .lengthError
  let others ← (List.range' 1 (thdcnt - 1)).mapM fun i => calculateThd workSize.toNat i thdcnt
  let own ← calculateThd workSize.toNat 0 thdcnt
  return ⟨reserved, others ++ [own]⟩

/-! ## Cut points -/

/-- Where the range of a thread begins, and the one before ends. -/
def cutPoint (workSize thdCnt idx : Nat) : Nat :=
  if idx < thdCnt then idx * (workSize / thdCnt) else workSize

theorem cutPoint_monotone (workSize thdCnt : Nat) : Monotone (cutPoint workSize thdCnt) := by
  apply monotone_nat_of_le_succ
  intro idx
  unfold cutPoint
  by_cases next : idx + 1 < thdCnt
  · rw [if_pos (Nat.lt_of_succ_lt next), if_pos next]
    exact Nat.mul_le_mul_right _ (Nat.le_succ idx)
  · rw [if_neg next]
    split
    · exact (Nat.mul_le_mul_right _ (Nat.le_of_lt (by assumption))).trans
        (Nat.mul_div_le workSize thdCnt)
    · exact le_refl workSize

theorem cutPoint_le (workSize thdCnt idx : Nat) : cutPoint workSize thdCnt idx ≤ workSize := by
  unfold cutPoint
  split
  · exact (Nat.mul_le_mul_right _ (Nat.le_of_lt (by assumption))).trans
      (Nat.mul_div_le workSize thdCnt)
  · exact le_refl workSize

/-- A value between the first and the last of some cut points lies behind one of them. -/
theorem exists_between_cutPoints {cuts : Nat → Nat} {count item : Nat} (first : cuts 0 ≤ item)
    (last : item < cuts count) : ∃ idx < count, cuts idx ≤ item ∧ item < cuts (idx + 1) := by
  induction count with
  | zero => omega
  | succ count inductionHypothesis =>
      by_cases earlier : item < cuts count
      · obtain ⟨idx, bound, between⟩ := inductionHypothesis earlier
        exact ⟨idx, Nat.lt_succ_of_lt bound, between⟩
      · exact ⟨count, Nat.lt_succ_self count, not_lt.mp earlier, last⟩

/-! ## The ranges -/

def InitRange.items (range : InitRange) : Set Nat :=
  Set.Ico range.startItem (range.startItem + range.itemCount)

/-- The range between two cut points. -/
def rangeAt (workSize thdCnt idx : Nat) : InitRange where
  startItem := cutPoint workSize thdCnt idx
  itemCount := cutPoint workSize thdCnt (idx + 1) - cutPoint workSize thdCnt idx

theorem items_rangeAt (workSize thdCnt idx : Nat) :
    (rangeAt workSize thdCnt idx).items =
      Set.Ico (cutPoint workSize thdCnt idx) (cutPoint workSize thdCnt (idx + 1)) := by
  rw [InitRange.items, rangeAt, Nat.add_sub_of_le (cutPoint_monotone workSize thdCnt (Nat.le_succ idx))]

theorem uint64_natCast {value : Nat} (small : value < 18446744073709551616) :
    uint64 value = value := by
  have exact := uint64_of_lt (Int.natCast_nonneg value) (by omega)
  omega

theorem calculateThd_eq {workSize idx thdCnt : Nat} (small : workSize < 18446744073709551616)
    (few : thdCnt < 4294967296) (isThread : idx < thdCnt) :
    calculateThd workSize idx thdCnt = .ok (rangeAt workSize thdCnt idx) := by
  have whole : thdCnt * (workSize / thdCnt) + workSize % thdCnt = workSize :=
    Nat.div_add_mod workSize thdCnt
  have start : idx * (workSize / thdCnt) ≤ workSize :=
    (Nat.mul_le_mul_right _ (Nat.le_of_lt isThread)).trans (Nat.mul_div_le workSize thdCnt)
  have last : uint64 (thdCnt - 1) = thdCnt - 1 := by
    rw [← Int.natCast_pred_of_pos (Nat.zero_lt_of_lt isThread), uint64_natCast (by omega)]
  rw [calculateThd, if_neg (Nat.ne_zero_of_lt isThread), rangeAt, cutPoint, cutPoint,
    if_pos isThread]
  simp only [← Int.natCast_mul, ← Int.natCast_add, ← Int.natCast_emod, last]
  rw [uint64_natCast (by omega)]
  by_cases final : idx = thdCnt - 1
  · -- the last range ends with the work
    have more : thdCnt * (workSize / thdCnt) = idx * (workSize / thdCnt) + workSize / thdCnt := by
      rw [← Nat.succ_mul, final, Nat.succ_eq_add_one, Nat.sub_add_cancel (Nat.zero_lt_of_lt isThread)]
    rw [if_pos final, if_neg (by omega), uint64_natCast (by omega)]
    congr 2
    omega
  · rw [if_neg final, if_pos (by omega), Nat.succ_mul, Nat.add_sub_cancel_left]

/-! ## The whole dataset -/

/-- Each item is initialized by one thread, and the vector of the other threads has its size. -/
structure InitializesAll (workSize thdcnt : Nat) (build : DatasetBuild) : Prop where
  reserved : build.reserved + 1 = thdcnt
  disjoint : build.ranges.Pairwise fun range other => Disjoint range.items other.items
  covers : ∀ item, (∃ range ∈ build.ranges, item ∈ range.items) ↔ item < workSize

theorem rangeAt_disjoint (workSize thdCnt : Nat) {idx other : Nat} (different : idx ≠ other) :
    Disjoint (rangeAt workSize thdCnt idx).items (rangeAt workSize thdCnt other).items := by
  rw [items_rangeAt, items_rangeAt]
  exact (cutPoint_monotone workSize thdCnt).pairwise_disjoint_on_Ico_succ different

theorem exists_mem_rangeAt_iff {workSize thdCnt : Nat} (some : 0 < thdCnt) (item : Nat) :
    (∃ idx < thdCnt, item ∈ (rangeAt workSize thdCnt idx).items) ↔ item < workSize := by
  simp only [items_rangeAt, Set.mem_Ico]
  constructor
  · rintro ⟨idx, -, -, below⟩
    exact lt_of_lt_of_le below (cutPoint_le workSize thdCnt (idx + 1))
  · intro below
    have first : cutPoint workSize thdCnt 0 ≤ item := by simp [cutPoint, some]
    have last : item < cutPoint workSize thdCnt thdCnt := by simpa [cutPoint] using below
    exact exists_between_cutPoints first last

theorem mapM_calculateThd {workSize thdCnt : Nat} (small : workSize < 18446744073709551616)
    (few : thdCnt < 4294967296) {places : List Nat} (areThreads : ∀ i ∈ places, i < thdCnt) :
    places.mapM (fun i => calculateThd workSize i thdCnt) =
      .ok (places.map (rangeAt workSize thdCnt)) := by
  induction places with
  | nil => rfl
  | cons i places inductionHypothesis =>
      obtain ⟨first, others⟩ := List.forall_mem_cons.mp areThreads
      rw [List.mapM_cons, calculateThd_eq small few first, inductionHypothesis others]
      rfl

/-- With some threads, the ranges are those between the cut points. -/
theorem datasetThdMain_eq (workSize : UInt64) {hardwareConcurrency : UInt32}
    (positive : 0 < hardwareConcurrency.toNat) :
    datasetThdMain workSize hardwareConcurrency =
      .ok
        { reserved := hardwareConcurrency.toNat - 1
          ranges := (List.range' 1 (hardwareConcurrency.toNat - 1) ++ [0]).map
            (rangeAt workSize.toNat hardwareConcurrency.toNat) } := by
  have small := workSize.toNat_lt
  have few := hardwareConcurrency.toNat_lt
  have reserved : uint64 (hardwareConcurrency.toNat - 1) = hardwareConcurrency.toNat - 1 := by
    rw [← Int.natCast_pred_of_pos positive, uint64_natCast (by omega)]
  have fits : ¬hardwareConcurrency.toNat - 1 > threadVectorMaxSize := by
    unfold threadVectorMaxSize
    omega
  have others := @mapM_calculateThd workSize.toNat hardwareConcurrency.toNat small few
    (List.range' 1 (hardwareConcurrency.toNat - 1)) (by simp; omega)
  have own := calculateThd_eq small few positive
  unfold datasetThdMain
  dsimp only
  rw [reserved, if_neg fits, others, own, List.map_append]
  rfl

/-- For every number of items: each is initialized by exactly one thread, exactly if the number
of threads is known. -/
theorem initializesAll_iff (workSize : UInt64) (hardwareConcurrency : UInt32) :
    (∃ build, datasetThdMain workSize hardwareConcurrency = .ok build ∧
        InitializesAll workSize.toNat hardwareConcurrency.toNat build) ↔
      hardwareConcurrency ≠ 0 := by
  constructor
  · rintro ⟨build, -, all⟩ rfl
    have reserved := all.reserved
    change build.reserved + 1 = 0 at reserved
    omega
  · intro known
    have positive : 0 < hardwareConcurrency.toNat :=
      Nat.pos_of_ne_zero fun zero => known (UInt32.toNat_inj.mp zero)
    refine ⟨_, datasetThdMain_eq workSize positive, Nat.sub_add_cancel positive, ?_, fun item => ?_⟩
    · rw [List.pairwise_map]
      have distinct : (List.range' 1 (hardwareConcurrency.toNat - 1) ++ [0]).Nodup := by
        rw [List.nodup_append]
        refine ⟨List.nodup_range', by simp, fun i member other isOwn => ?_⟩
        have bound := (List.mem_range'_1.mp member).1
        rw [List.mem_singleton.mp isOwn]
        omega
      exact distinct.imp (rangeAt_disjoint workSize.toNat hardwareConcurrency.toNat)
    · rw [← exists_mem_rangeAt_iff positive]
      simp only [List.mem_map, exists_exists_and_eq_and]
      refine exists_congr fun idx => and_congr_left fun _ => ?_
      simp only [List.mem_append, List.mem_range'_1, List.mem_singleton]
      omega

/-- The size of the dataset, and an unknown number of threads: the reservation wraps. -/
theorem datasetThdMain_unknown :
    datasetThdMain 34078719 0 = .error .lengthError ∧
      ¬∃ build, datasetThdMain 34078719 0 = .ok build ∧ InitializesAll 34078719 0 build := by
  have thrown : datasetThdMain 34078719 0 = .error .lengthError := by rfl
  refine ⟨thrown, ?_⟩
  rintro ⟨build, built, -⟩
  rw [thrown] at built
  cases built

end EpicMiner.Mining
