import EpicMiner.Report.Hashrate

/-!
Owns `get_hashrate_peak`, which subtracts the times of idle samples with their
sign, and its relation to the current rate. Whatever the hash counts are, the peak
covers the current rate exactly if no idle sample splits the window of that rate.
-/

namespace EpicMiner.Report

open EpicMiner.Data

/-! ## The walk -/

/-- The loop of `get_hashrate_peak` over the given places. -/
def peakFrom (log : HashLog) : List Nat → Nat → ℚ → ℚ
  | [], _, peakHps => peakHps
  | i :: rest, p, peakHps =>
      if (log.get i).time = 0 then peakHps
      else
        let delta := uint64 ((log.get p).time - (log.get i).time)
        if 10000 < delta then
          let hps : ℚ := ((log.get p).hashes - (log.get i).hashes : Int) / delta * 1000
          peakFrom log rest i (if peakHps < hps then hps else peakHps)
        else peakFrom log rest p peakHps

/-- `executor::get_hashrate_peak`, in exact arithmetic. -/
def getHashratePeak (miners : List Miner) (thdIdx : Nat) : ℚ :=
  match miners[thdIdx]? with
  | none => 0
  | some miner => peakFrom miner.hashLog (List.range hashLogSize) 0 0

/-- The `hps` of a step from `newer` to `older`. -/
def stepRate (newer older : HashRec) : ℚ :=
  ((newer.hashes - older.hashes : Int) : ℚ) / uint64 (newer.time - older.time) * 1000

/-- The loop over what the places hold, from the place `p` on. -/
def peakOver : HashRec → List HashRec → ℚ → ℚ
  | _, [], peakHps => peakHps
  | newer, older :: rest, peakHps =>
      if older.time = 0 then peakHps
      else if 10000 < uint64 (newer.time - older.time) then
        peakOver older rest
          (if peakHps < stepRate newer older then stepRate newer older else peakHps)
      else peakOver newer rest peakHps

theorem peakFrom_eq (log : HashLog) (places : List Nat) (p : Nat) (peakHps : ℚ) :
    peakFrom log places p peakHps = peakOver (log.get p) (places.map log.get) peakHps := by
  induction places generalizing p peakHps with
  | nil => rfl
  | cons i places inductionHypothesis =>
      simp only [peakFrom, List.map_cons, peakOver, inductionHypothesis]
      rfl

theorem peakOver_append_empty (newer : HashRec) (samples : List Sample) (count : Nat)
    (peakHps : ℚ) :
    peakOver newer (samples.map Sample.record ++ List.replicate count .empty) peakHps =
      peakOver newer (samples.map Sample.record) peakHps := by
  induction samples generalizing newer peakHps with
  | nil =>
      cases count with
      | zero => rfl
      | succ count => rfl
  | cons sample samples inductionHypothesis =>
      simp only [List.map_cons, List.cons_append, peakOver, inductionHypothesis]

/-- The peak of a log that holds the given samples, the newest first. -/
def peakOf : List Sample → ℚ
  | [] => 0
  | newest :: rest => peakOver newest.record (rest.map Sample.record) 0

theorem getHashratePeak_eq {miners : List Miner} {thdIdx : Nat} {miner : Miner}
    (found : miners[thdIdx]? = some miner) {samples : List Sample}
    (isLog : IsLogOf samples miner.hashLog) :
    getHashratePeak miners thdIdx = peakOf (retained samples) := by
  have places := cells_isLogOf isLog
  have walked : getHashratePeak miners thdIdx =
      peakOver (miner.hashLog.get 0) (cells miner.hashLog) 0 := by
    rw [getHashratePeak, found]
    exact peakFrom_eq _ _ _ _
  cases held : retained samples with
  | nil =>
      rw [held, List.map_nil, List.nil_append] at places
      rw [walked, places]
      rfl
  | cons newest rest =>
      rw [held] at places
      have newestPlace : miner.hashLog.get 0 = newest.record := by
        rw [cells_eq_cons, List.map_cons, List.cons_append] at places
        exact (List.cons_eq_cons.mp places).1
      -- at the first place the walk compares the newest sample with itself
      rw [walked, places, newestPlace, peakOver_append_empty, List.map_cons, peakOver,
        if_neg newest.record_time_ne_zero, Int.sub_self, if_neg (by decide)]
      rfl

theorem le_peakOver (newer : HashRec) (samples : List HashRec) (peakHps : ℚ) :
    peakHps ≤ peakOver newer samples peakHps := by
  induction samples generalizing newer peakHps with
  | nil => exact le_refl peakHps
  | cons older samples inductionHypothesis =>
      rw [peakOver]
      split
      · exact le_refl peakHps
      · split
        · apply le_trans _ (inductionHypothesis older _)
          split
          · exact le_of_lt (by assumption)
          · exact le_refl peakHps
        · exact inductionHypothesis newer peakHps

/-- A step of the walk raises the peak to its rate at least. -/
theorem stepRate_le_peakOver {newer older : HashRec} (nonempty : older.time ≠ 0)
    (steps : 10000 < uint64 (newer.time - older.time)) (rest : List HashRec) (peakHps : ℚ) :
    stepRate newer older ≤ peakOver newer (older :: rest) peakHps := by
  rw [peakOver, if_neg nonempty, if_pos steps]
  apply le_trans _ (le_peakOver older rest _)
  split
  · exact le_refl _
  · exact not_lt.mp (by assumption)

/-! ## Clocks -/

/-- The clock runs forward, and no difference of two signed times overflows. -/
structure Clocked (samples : List Sample) : Prop where
  strictly : samples.Pairwise fun newer older => older.time < newer.time
  signed : samples.Pairwise fun newer older => newer.time + older.time < 9223372036854775808

theorem Clocked.sublist {samples part : List Sample} (clocked : Clocked samples)
    (isPart : part.Sublist samples) : Clocked part :=
  ⟨clocked.strictly.sublist isPart, clocked.signed.sublist isPart⟩

theorem Clocked.tail {newer : Sample} {rest : List Sample} (clocked : Clocked (newer :: rest)) :
    Clocked rest :=
  clocked.sublist (List.sublist_cons_self newer rest)

theorem hashingTime_lt {newer : Sample} {rest : List Sample}
    (clocked : Clocked (newer :: rest)) : hashingTime (newer :: rest) < newer.time := by
  induction rest generalizing newer with
  | nil => exact newer.time_pos
  | cons older rest inductionHypothesis =>
      have behind := inductionHypothesis clocked.tail
      have earlier := (List.pairwise_cons.mp clocked.strictly).1 older (.head _)
      rw [hashingTime_pair, counted]
      split <;> omega

section Steps

variable {newer older : Sample} {rest run : List Sample} {limit : Int}

theorem IsWindow.hashingTime_lt (window : IsWindow limit (newer :: rest) run) (nonneg : 0 ≤ limit)
    (clocked : Clocked (newer :: rest)) : hashingTime run < newer.time := by
  have recent := window.recent
  cases run with
  | nil => exact absurd rfl (window.ne_nil nonneg)
  | cons first run =>
      have part := clocked.sublist recent.sublist
      obtain ⟨rfl, -⟩ := List.cons_prefix_cons.mp recent
      exact Report.hashingTime_lt part

/-- The window either ends with the first pair, or goes on behind the newest sample. -/
theorem IsWindow.cases (window : IsWindow limit (newer :: older :: rest) run)
    (nonneg : 0 ≤ limit) :
    (limit < counted Sample.time newer older ∧ newer.hashing = true ∧ older.hashing = true ∧
        run = [newer, older]) ∨
      counted Sample.time newer older ≤ limit ∧ ∃ tail, run = newer :: older :: tail ∧
        IsWindow (limit - counted Sample.time newer older) (older :: rest) (older :: tail) := by
  by_cases exceeds : limit < counted Sample.time newer older
  · have hashing : newer.hashing = true ∧ older.hashing = true := by
      by_contra idle
      rw [counted, if_neg idle] at exceeds
      omega
    exact .inl ⟨exceeds, hashing.1, hashing.2, window.unique (.pair nonneg exceeds)⟩
  · refine .inr ⟨not_lt.mp exceeds, ?_⟩
    have two := window.two_le nonneg
    obtain ⟨first, behind, rfl⟩ := List.exists_cons_of_length_pos (Nat.zero_lt_of_lt two)
    obtain ⟨second, tail, rfl⟩ := List.exists_cons_of_length_pos (Nat.lt_of_succ_lt_succ two)
    obtain ⟨rfl, isPrefix⟩ := List.cons_prefix_cons.mp window.recent
    obtain ⟨rfl, -⟩ := List.cons_prefix_cons.mp isPrefix
    have total := window.exceeds
    rw [hashingTime_pair] at total
    refine ⟨tail, rfl, isPrefix, by omega, fun shorter isShorter more => ?_⟩
    have some : shorter ≠ [] := by
      rintro rfl
      change limit - counted Sample.time first second < 0 at more
      omega
    have longer : limit < hashingTime (first :: shorter) := by
      rw [hashingTime_cons (isShorter.trans isPrefix) some]
      omega
    have same := window.shortest (first :: shorter)
      (List.cons_prefix_cons.mpr ⟨rfl, isShorter⟩) longer
    exact (List.cons_eq_cons.mp same).2

/-- Between two samples that are not both hashing, the walk takes a step: their signed times
are far apart, or the difference wraps. -/
theorem steps_of_not_hashing (clocked : Clocked (newer :: older :: rest))
    (late : 10000 < newer.time) (idle : ¬(newer.hashing = true ∧ older.hashing = true)) :
    10000 < uint64 (newer.record.time - older.record.time) := by
  have earlier := (List.pairwise_cons.mp clocked.strictly).1 older (.head _)
  have signed := (List.pairwise_cons.mp clocked.signed).1 older (.head _)
  have newerPositive := newer.time_pos
  have olderPositive := older.time_pos
  unfold uint64 Sample.record
  dsimp only
  split <;> split
  · exact absurd ⟨by assumption, by assumption⟩ idle
  · omega
  · omega
  · omega

/-- Between two hashing samples, the walk sees the time between them. -/
theorem uint64_of_hashing {head : Sample} (newerHashing : head.hashing = true)
    (olderHashing : older.hashing = true) (earlier : older.time < head.time) :
    (uint64 (head.record.time - older.record.time) : Int) = head.time - older.time := by
  have headBound := head.time_lt
  have olderPositive := older.time_pos
  rw [Sample.record_time_of_hashing newerHashing, Sample.record_time_of_hashing olderHashing]
  exact uint64_of_lt (by omega) (by omega)

/-- From a hashing sample to an idle one, it sees the sum of the two times. -/
theorem uint64_of_idle {head : Sample} (headHashing : head.hashing = true)
    (olderIdle : ¬older.hashing = true) :
    (uint64 (head.record.time - older.record.time) : Int) = head.time + older.time := by
  have headBound := head.time_lt
  have headPositive := head.time_pos
  have olderBound := older.time_lt
  have olderPositive := older.time_pos
  have olderTime : older.record.time = -older.time := if_neg olderIdle
  rw [Sample.record_time_of_hashing headHashing, olderTime]
  exact (uint64_of_lt (by omega) (by omega)).trans (by omega)

end Steps

theorem not_isWindow_of_short {limit : Int} {samples run : List Sample} (nonneg : 0 ≤ limit)
    (short : samples.length ≤ 1) : ¬IsWindow limit samples run := by
  intro window
  have bound := (window.two_le nonneg).trans window.recent.length_le
  omega

/-! ## Windows in one piece -/

/-- An idle sample lies behind the first pair of adjacent hashing samples. A window ends with
such a pair, so there are hashing pairs on both sides of it. -/
def Split : List Sample → Prop
  | newer :: older :: rest =>
      if newer.hashing = true ∧ older.hashing = true then ∃ idle ∈ rest, idle.hashing = false
      else Split (older :: rest)
  | _ => False

/-- The window of the current rate is split by an idle sample. -/
def SplitWindow (samples : List Sample) : Prop :=
  ∃ run, IsWindow 10000 (retained samples) run ∧ Split run

/-- From a hashing sample on, the walk takes its next step at the end of a window that has only
hashing samples. The induction is on the samples behind `current`, up to which the walk has
come without a step. -/
theorem rate_le_peakOver_of_hashing {head : Sample} (headHashing : head.hashing = true)
    (current : Sample) (rest run : List Sample) (peakHps : ℚ)
    (clocked : Clocked (current :: rest)) (before : current.time ≤ head.time)
    (within : head.time - current.time ≤ 10000)
    (window : IsWindow (10000 - (head.time - current.time)) (current :: rest) run)
    (hashing : ∀ sample ∈ run, sample.hashing = true) :
    1000 * (head.hashes - current.hashes + hashesFound run : ℚ) /
        (head.time - current.time + hashingTime run) ≤
      peakOver head.record (rest.map Sample.record) peakHps := by
  induction rest generalizing current run with
  | nil => exact absurd window (not_isWindow_of_short (by omega) (by simp))
  | cons older rest inductionHypothesis =>
      have earlier := (List.pairwise_cons.mp clocked.strictly).1 older (.head _)
      rw [List.map_cons]
      rcases window.cases (by omega) with
        ⟨exceeds, currentHashing, olderHashing, rfl⟩ | ⟨fits, tail, rfl, behind⟩
      · have time : counted Sample.time current older = current.time - older.time :=
          if_pos ⟨currentHashing, olderHashing⟩
        have hashes : counted Sample.hashes current older = current.hashes - older.hashes :=
          if_pos ⟨currentHashing, olderHashing⟩
        have delta := uint64_of_hashing headHashing olderHashing (by omega)
        have steps := stepRate_le_peakOver older.record_time_ne_zero
          (by omega : 10000 < uint64 (head.record.time - older.record.time))
          (rest.map Sample.record) peakHps
        have total : hashingTime [current, older] = current.time - older.time := by
          rw [hashingTime_pair, time]
          exact Int.add_zero _
        have found : hashesFound [current, older] = current.hashes - older.hashes := by
          rw [hashesFound_pair, hashes]
          exact Int.add_zero _
        have divisor : (uint64 (head.record.time - older.record.time) : ℚ) =
            head.time - older.time := by exact_mod_cast delta
        apply le_of_eq_of_le _ steps
        rw [total, found, stepRate, divisor]
        simp only [Sample.record]
        push_cast
        ring
      · have olderHashing := hashing older (.tail _ (.head _))
        have currentHashing := hashing current (.head _)
        have time : counted Sample.time current older = current.time - older.time :=
          if_pos ⟨currentHashing, olderHashing⟩
        have hashes : counted Sample.hashes current older = current.hashes - older.hashes :=
          if_pos ⟨currentHashing, olderHashing⟩
        have delta := uint64_of_hashing headHashing olderHashing (by omega)
        have limit : 10000 - (head.time - current.time) - counted Sample.time current older =
            10000 - (head.time - older.time) := by omega
        rw [limit] at behind
        have later := inductionHypothesis older (older :: tail) clocked.tail (by omega) (by omega)
          behind fun sample member => hashing sample (.tail _ member)
        rw [peakOver, if_neg older.record_time_ne_zero, if_neg (by omega)]
        apply le_of_eq_of_le _ later
        rw [hashingTime_pair, hashesFound_pair, time, hashes]
        push_cast
        ring

/-- The peak covers the rate of a window in one piece. Up to its first hashing pair the walk
takes a step at every sample. -/
theorem runRate_le_peakOver (newer : Sample) (rest run : List Sample) (peakHps : ℚ)
    (clocked : Clocked (newer :: rest)) (window : IsWindow 10000 (newer :: rest) run)
    (whole : ¬Split run) :
    runRate run ≤ peakOver newer.record (rest.map Sample.record) peakHps := by
  induction rest generalizing newer run peakHps with
  | nil => exact absurd window (not_isWindow_of_short (by omega) (by simp))
  | cons older rest inductionHypothesis =>
      have late := window.exceeds.trans (window.hashingTime_lt (by omega) clocked)
      by_cases hashing : newer.hashing = true ∧ older.hashing = true
      · have all : ∀ sample ∈ run, sample.hashing = true := by
          rcases window.cases (by omega) with ⟨-, -, -, rfl⟩ | ⟨fits, tail, rfl, behind⟩
          · simpa using hashing
          · rw [Split, if_pos hashing] at whole
            push Not at whole
            intro sample member
            rcases List.mem_cons.mp member with rfl | member
            · exact hashing.1
            · rcases List.mem_cons.mp member with rfl | member
              · exact hashing.2
              · simpa using whole sample member
        have covered := rate_le_peakOver_of_hashing hashing.1 newer (older :: rest) run peakHps
          clocked (le_refl _) (by omega) (by simpa using window) all
        simpa [runRate] using covered
      · have none : counted Sample.time newer older = 0 := if_neg hashing
        rcases window.cases (by omega) with ⟨-, first, second, -⟩ | ⟨-, tail, rfl, behind⟩
        · exact absurd ⟨first, second⟩ hashing
        · rw [none, Int.sub_zero] at behind
          rw [Split, if_neg hashing] at whole
          have same : runRate (newer :: older :: tail) = runRate (older :: tail) := by
            rw [runRate, runRate, hashingTime_pair, hashesFound_pair, none, counted,
              if_neg hashing, Int.zero_add, Int.zero_add]
          rw [same, List.map_cons, peakOver, if_neg older.record_time_ne_zero,
            if_pos (steps_of_not_hashing clocked late hashing)]
          exact inductionHypothesis older (older :: tail) _ clocked.tail behind whole

/-! ## Split windows -/

/-- Clock and pattern of a sample, without its hash count. -/
def Sample.tick (sample : Sample) : Int × Bool :=
  (sample.time, sample.hashing)

/-- The sample with one hash found so far, or none. -/
def Sample.withHashes (found : Bool) (sample : Sample) : Sample :=
  { sample with
    hashes := if found then 1 else 0
    hashes_nonneg := by cases found <;> decide
    hashes_lt := by cases found <;> decide }

/-- The same clock and pattern, with a single hash, found between the two samples of the first
hashing pair. -/
def spike : List Sample → List Sample
  | newer :: older :: rest =>
      if newer.hashing = true ∧ older.hashing = true then
        newer.withHashes true :: (older :: rest).map (Sample.withHashes false)
      else newer.withHashes true :: spike (older :: rest)
  | rest => rest.map (Sample.withHashes false)

theorem short_of_single {samples : List Sample}
    (single : ∀ newer older rest, samples = newer :: older :: rest → False) :
    samples.length ≤ 1 := by
  match samples, single with
  | [], _ => exact Nat.zero_le 1
  | [_], _ => exact Nat.le_refl 1
  | newer :: older :: rest, single => exact (single newer older rest rfl).elim

theorem map_tick_withHashes (found : Bool) (samples : List Sample) :
    (samples.map (Sample.withHashes found)).map Sample.tick = samples.map Sample.tick := by
  rw [List.map_map]
  rfl

theorem map_tick_spike (samples : List Sample) :
    (spike samples).map Sample.tick = samples.map Sample.tick := by
  fun_induction spike samples with
  | case1 newer older rest _ =>
      rw [List.map_cons, map_tick_withHashes]
      rfl
  | case2 newer older rest _ inductionHypothesis =>
      rw [List.map_cons, inductionHypothesis]
      rfl
  | case3 rest _ => exact map_tick_withHashes false rest

theorem hashingTime_congr {samples other : List Sample}
    (same : samples.map Sample.tick = other.map Sample.tick) :
    hashingTime samples = hashingTime other := by
  induction samples generalizing other with
  | nil =>
      have none : other = [] := List.map_eq_nil_iff.mp same.symm
      rw [none]
  | cons newer samples inductionHypothesis =>
      obtain ⟨newer', other, rfl, newerTick, rest⟩ := List.map_eq_cons_iff.mp same.symm
      have behind := inductionHypothesis rest.symm
      obtain ⟨newerTime, newerHashing⟩ := Prod.mk.inj newerTick
      cases samples with
      | nil =>
          have none : other = [] := List.map_eq_nil_iff.mp rest
          rw [none]
          rfl
      | cons older samples =>
          obtain ⟨older', other, rfl, olderTick, -⟩ := List.map_eq_cons_iff.mp rest
          obtain ⟨olderTime, olderHashing⟩ := Prod.mk.inj olderTick
          rw [hashingTime_pair, hashingTime_pair, behind, counted, counted, newerTime,
            newerHashing, olderTime, olderHashing]

/-- A window stays one under other hash counts. -/
theorem IsWindow.of_ticks {limit : Int} {samples other run : List Sample}
    (window : IsWindow limit samples run)
    (same : samples.map Sample.tick = other.map Sample.tick) :
    IsWindow limit other (other.take run.length) ∧
      hashingTime (other.take run.length) = hashingTime run := by
  have runTaken : run = samples.take run.length := List.prefix_iff_eq_take.mp window.recent
  have ticks : ∀ n, (samples.take n).map Sample.tick = (other.take n).map Sample.tick := by
    intro n
    rw [List.map_take, List.map_take, same]
  have time : hashingTime (other.take run.length) = hashingTime run := by
    rw [← hashingTime_congr (ticks run.length), ← runTaken]
  refine ⟨⟨List.take_prefix _ _, time ▸ window.exceeds, fun shorter isPrefix exceeds => ?_⟩, time⟩
  have bound := isPrefix.length_le
  have length : (other.take run.length).length = run.length := by
    have lengths := congrArg List.length (ticks run.length)
    rw [List.length_map, List.length_map, ← runTaken] at lengths
    exact lengths.symm
  have shorterTaken : shorter = other.take shorter.length :=
    List.prefix_iff_eq_take.mp (isPrefix.trans (List.take_prefix _ _))
  rw [shorterTaken, ← hashingTime_congr (ticks shorter.length)] at exceeds
  have isShorter : samples.take shorter.length <+: run := by
    rw [runTaken]
    exact List.take_prefix_take_left (by omega)
  have whole := congrArg List.length (window.shortest _ isShorter exceeds)
  rw [List.length_take] at whole
  exact isPrefix.eq_of_length (by omega)

/-- Without a hash to find, the walk finds no higher rate. -/
theorem peakOver_withoutHashes (newer : HashRec) (none : newer.hashes = 0) (rest : List Sample)
    {peakHps : ℚ} (nonneg : 0 ≤ peakHps) :
    peakOver newer ((rest.map (Sample.withHashes false)).map Sample.record) peakHps = peakHps := by
  induction rest generalizing newer with
  | nil => rfl
  | cons older rest inductionHypothesis =>
      have still : stepRate newer (older.withHashes false).record = 0 := by
        simp [stepRate, none, Sample.record, Sample.withHashes]
      rw [List.map_cons, List.map_cons, peakOver, if_neg (Sample.record_time_ne_zero _), still,
        if_neg (not_lt.mpr nonneg)]
      split
      · exact inductionHypothesis _ rfl
      · exact inductionHypothesis newer none

theorem stepRate_withoutHashes {head older : Sample} (one : head.hashes = 1) {span : Int}
    (delta : (uint64 (head.record.time - older.record.time) : Int) = span) :
    stepRate head.record (older.withHashes false).record = 1000 / span := by
  have divisor : (uint64 (head.record.time - (older.withHashes false).record.time) : ℚ) = span := by
    exact_mod_cast delta
  rw [stepRate, divisor]
  simp only [Sample.record, Sample.withHashes, one]
  push_cast
  ring

/-- The hash found in front of a split window is spread over the signed time to the idle sample,
which is more than the time of the window. The induction is on the samples behind `current`. -/
theorem peakOver_lt_of_idle {head : Sample} (headHashing : head.hashing = true)
    (one : head.hashes = 1) (current : Sample) (rest run : List Sample)
    (clocked : Clocked (current :: rest)) (before : current.time ≤ head.time)
    (within : head.time - current.time ≤ 10000)
    (window : IsWindow (10000 - (head.time - current.time)) (current :: rest) run)
    (currentHashing : current.hashing = true) (split : ∃ idle ∈ run, idle.hashing = false) :
    peakOver head.record ((rest.map (Sample.withHashes false)).map Sample.record) 0 <
      1000 / (head.time - current.time + hashingTime run : Int) := by
  induction rest generalizing current run with
  | nil => exact absurd window (not_isWindow_of_short (by omega) (by simp))
  | cons older rest inductionHypothesis =>
      have earlier := (List.pairwise_cons.mp clocked.strictly).1 older (.head _)
      rcases window.cases (by omega) with ⟨-, -, olderHashing, rfl⟩ | ⟨fits, tail, rfl, behind⟩
      · simp [currentHashing, olderHashing] at split
      · have shown : (older.withHashes false).record.time = older.record.time := rfl
        rw [List.map_cons, List.map_cons, peakOver, if_neg (Sample.record_time_ne_zero _), shown]
        by_cases olderHashing : older.hashing = true
        · have time : counted Sample.time current older = current.time - older.time :=
            if_pos ⟨currentHashing, olderHashing⟩
          have delta := uint64_of_hashing headHashing olderHashing (by omega)
          have limit : 10000 - (head.time - current.time) - counted Sample.time current older =
              10000 - (head.time - older.time) := by omega
          have idleBehind : ∃ idle ∈ older :: tail, idle.hashing = false := by
            obtain ⟨idle, member, isIdle⟩ := split
            rcases List.mem_cons.mp member with rfl | member
            · rw [currentHashing] at isIdle
              cases isIdle
            · exact ⟨idle, member, isIdle⟩
          rw [limit] at behind
          have later := inductionHypothesis older (older :: tail) clocked.tail (by omega)
            (by omega) behind olderHashing idleBehind
          rw [if_neg (by omega), hashingTime_pair, time]
          apply lt_of_lt_of_eq later
          congr 2
          omega
        · have delta := uint64_of_idle headHashing olderHashing
          have rate := stepRate_withoutHashes one delta
          have exceeds := window.exceeds
          have bound := window.hashingTime_lt (by omega) clocked
          have olderPositive := older.time_pos
          have positive : (0 : ℚ) <
              (head.time - current.time + hashingTime (current :: older :: tail) : Int) := by
            exact_mod_cast (by omega)
          have longer :
              ((head.time - current.time + hashingTime (current :: older :: tail) : Int) : ℚ) <
                (head.time + older.time : Int) := by
            exact_mod_cast (by omega)
          have less := div_lt_div_of_pos_left (by norm_num : (0 : ℚ) < 1000) positive longer
          have raised : (0 : ℚ) < 1000 / (head.time + older.time : Int) :=
            div_pos (by norm_num) (positive.trans longer)
          rw [if_pos (by omega), rate, if_pos raised,
            peakOver_withoutHashes _ rfl rest (le_of_lt raised)]
          exact less

theorem spike_cons {newest : Sample} {rest : List Sample} (nonempty : rest ≠ []) :
    ∃ tail, spike (newest :: rest) = newest.withHashes true :: tail := by
  cases rest with
  | nil => exact absurd rfl nonempty
  | cons older rest =>
      rw [spike]
      split
      · exact ⟨_, rfl⟩
      · exact ⟨_, rfl⟩

theorem IsWindow.rest_ne_nil {limit : Int} {newest : Sample} {rest run : List Sample}
    (window : IsWindow limit (newest :: rest) run) (nonneg : 0 ≤ limit) : rest ≠ [] := by
  rintro rfl
  exact not_isWindow_of_short nonneg (by simp) window

theorem hashesFound_withoutHashes (samples : List Sample) :
    hashesFound (samples.map (Sample.withHashes false)) = 0 := by
  induction samples with
  | nil => rfl
  | cons newer samples inductionHypothesis =>
      cases samples with
      | nil => rfl
      | cons older samples =>
          have none : counted Sample.hashes (newer.withHashes false) (older.withHashes false) = 0 := by
            simp [counted, Sample.withHashes]
          rw [List.map_cons, List.map_cons, hashesFound_pair, none, Int.zero_add]
          exact inductionHypothesis

/-- The hash of the spike is found in the window. -/
theorem hashesFound_spike {limit : Int} {samples run : List Sample} (nonneg : 0 ≤ limit)
    (window : IsWindow limit samples run) : hashesFound ((spike samples).take run.length) = 1 := by
  fun_induction spike samples generalizing run with
  | case1 newer older rest hashing =>
      obtain ⟨n, length⟩ := Nat.exists_eq_add_of_le (window.two_le nonneg)
      have taken : (newer.withHashes true :: (older :: rest).map (Sample.withHashes false)).take
          run.length = newer.withHashes true ::
            (older :: rest.take n).map (Sample.withHashes false) := by
        rw [length, Nat.add_comm, List.take_succ_cons, List.map_cons, List.take_succ_cons,
          List.map_cons, List.map_take]
      have found : counted Sample.hashes (newer.withHashes true) (older.withHashes false) = 1 := by
        simp [counted, Sample.withHashes, hashing]
      rw [taken, List.map_cons, hashesFound_pair, found, ← List.map_cons,
        hashesFound_withoutHashes]
      rfl
  | case2 newer older rest idle inductionHypothesis =>
      rcases window.cases nonneg with ⟨-, first, second, -⟩ | ⟨-, tail, rfl, behind⟩
      · exact absurd ⟨first, second⟩ idle
      · rw [counted, if_neg idle, Int.sub_zero] at behind
        have found := inductionHypothesis behind
        obtain ⟨others, spiked⟩ := @spike_cons older rest (behind.rest_ne_nil nonneg)
        have none : counted Sample.hashes (newer.withHashes true) (older.withHashes true) = 0 :=
          if_neg idle
        rw [spiked, List.length_cons, List.take_succ_cons] at found
        rw [spiked, List.length_cons, List.length_cons, List.take_succ_cons, List.take_succ_cons,
          hashesFound_pair, none, found]
        rfl
  | case3 rest single => exact absurd window (not_isWindow_of_short nonneg (short_of_single single))

/-- But the walk spreads it over more than the time of the window. -/
theorem peakOf_spike_lt {samples run : List Sample} (clocked : Clocked samples)
    (window : IsWindow 10000 samples run) (split : Split run) :
    peakOf (spike samples) < 1000 / hashingTime run := by
  fun_induction spike samples generalizing run with
  | case1 newer older rest hashing =>
      have idle : ∃ idle ∈ run, idle.hashing = false := by
        rcases window.cases (by omega) with ⟨-, -, -, rfl⟩ | ⟨fits, tail, rfl, behind⟩
        · simp [Split, hashing] at split
        · rw [Split, if_pos hashing] at split
          obtain ⟨idle, member, isIdle⟩ := split
          exact ⟨idle, .tail _ (.tail _ member), isIdle⟩
      have less := @peakOver_lt_of_idle (newer.withHashes true) hashing.1 rfl newer (older :: rest)
        run clocked (le_refl _) (by simp [Sample.withHashes])
        (by simpa [Sample.withHashes] using window) hashing.1 idle
      have time : (newer.withHashes true).time - newer.time + hashingTime run = hashingTime run := by
        change newer.time - newer.time + hashingTime run = hashingTime run
        omega
      rw [time] at less
      exact less
  | case2 newer older rest idle inductionHypothesis =>
      have late := window.exceeds.trans (window.hashingTime_lt (by omega) clocked)
      rcases window.cases (by omega) with ⟨-, first, second, -⟩ | ⟨-, tail, rfl, behind⟩
      · exact absurd ⟨first, second⟩ idle
      · have none : counted Sample.time newer older = 0 := if_neg idle
        rw [none, Int.sub_zero] at behind
        rw [Split, if_neg idle] at split
        have less := inductionHypothesis clocked.tail behind split
        obtain ⟨others, spiked⟩ := @spike_cons older rest (behind.rest_ne_nil (by omega))
        have steps : 10000 < uint64 ((newer.withHashes true).record.time -
            (older.withHashes true).record.time) :=
          @steps_of_not_hashing newer older rest clocked late idle
        have still : stepRate (newer.withHashes true).record (older.withHashes true).record = 0 := by
          simp [stepRate, Sample.record, Sample.withHashes]
        rw [hashingTime_pair, none, Int.zero_add]
        rw [spiked] at less ⊢
        rw [peakOf, List.map_cons, peakOver, if_neg (Sample.record_time_ne_zero _), if_pos steps,
          still, if_neg (lt_irrefl 0)]
        exact less
  | case3 rest single =>
      exact absurd window (not_isWindow_of_short (by omega) (short_of_single single))

theorem spike_sorted (samples : List Sample) :
    (spike samples).Pairwise (fun newer older => older.hashes ≤ newer.hashes) ∧
      ∀ sample ∈ spike samples, sample.hashes ≤ 1 := by
  have none : ∀ rest : List Sample,
      (rest.map (Sample.withHashes false)).Pairwise (fun newer older =>
        older.hashes ≤ newer.hashes) ∧
      ∀ sample ∈ rest.map (Sample.withHashes false), sample.hashes ≤ 1 := by
    intro rest
    constructor
    · exact List.pairwise_map.mpr (List.pairwise_of_forall fun _ _ => le_refl _)
    · simp [Sample.withHashes]
  fun_induction spike samples with
  | case1 newer older rest _ =>
      obtain ⟨sorted, small⟩ := none (older :: rest)
      exact ⟨List.pairwise_cons.mpr ⟨small, sorted⟩, List.forall_mem_cons.mpr ⟨le_refl _, small⟩⟩
  | case2 newer older rest _ inductionHypothesis =>
      obtain ⟨sorted, small⟩ := inductionHypothesis
      exact ⟨List.pairwise_cons.mpr ⟨small, sorted⟩, List.forall_mem_cons.mpr ⟨le_refl _, small⟩⟩
  | case3 rest _ => exact none rest

/-! ## The peak covers the current rate -/

/-- `get_hashrate_peak(i) >= get_hashrate(i, 10)` for a miner sampled so. -/
def PeakCovers (samples : List Sample) : Prop :=
  ∀ miners thdIdx miner, miners[thdIdx]? = some miner → IsLogOf samples miner.hashLog →
    getHashrate miners thdIdx 10 ≤ getHashratePeak miners thdIdx

section Ticks

variable {samples other : List Sample}

theorem Clocked.of_ticks (clocked : Clocked samples)
    (same : samples.map Sample.tick = other.map Sample.tick) : Clocked other := by
  have carried : ∀ relation : Int → Int → Prop,
      samples.Pairwise (fun newer older => relation newer.time older.time) →
      other.Pairwise fun newer older => relation newer.time older.time := by
    intro relation holds
    have times : samples.map Sample.time = other.map Sample.time := by
      have firsts := congrArg (List.map Prod.fst) same
      rwa [List.map_map, List.map_map] at firsts
    have ticks : (samples.map Sample.time).Pairwise relation := List.pairwise_map.mpr holds
    rw [times] at ticks
    exact List.pairwise_map.mp ticks
  exact ⟨carried (fun newer older => older < newer) clocked.strictly,
    carried (fun newer older => newer + older < 9223372036854775808) clocked.signed⟩

theorem Clocked.retained (clocked : Clocked samples.reverse) : Clocked (retained samples) :=
  clocked.sublist (List.take_sublist _ _)

theorem split_of_ticks (same : samples.map Sample.tick = other.map Sample.tick)
    (split : Split samples) : Split other := by
  fun_induction Split samples generalizing other with
  | case1 newer older rest hashing =>
      obtain ⟨newer', behind, rfl, newerTick, behindTicks⟩ := List.map_eq_cons_iff.mp same.symm
      obtain ⟨older', rest', rfl, olderTick, restTicks⟩ := List.map_eq_cons_iff.mp behindTicks
      have hashing' : newer'.hashing = true ∧ older'.hashing = true :=
        ⟨(Prod.mk.inj newerTick).2.trans hashing.1, (Prod.mk.inj olderTick).2.trans hashing.2⟩
      obtain ⟨idle, member, isIdle⟩ := split
      have listed := List.mem_map_of_mem (f := Sample.tick) member
      rw [← restTicks] at listed
      obtain ⟨twin, isListed, tick⟩ := List.mem_map.mp listed
      rw [Split, if_pos hashing']
      exact ⟨twin, isListed, (Prod.mk.inj tick).2.trans isIdle⟩
  | case2 newer older rest idle inductionHypothesis =>
      obtain ⟨newer', behind, rfl, newerTick, behindTicks⟩ := List.map_eq_cons_iff.mp same.symm
      obtain ⟨older', rest', rfl, olderTick, restTicks⟩ := List.map_eq_cons_iff.mp behindTicks
      have idle' : ¬(newer'.hashing = true ∧ older'.hashing = true) := by
        rw [(Prod.mk.inj newerTick).2, (Prod.mk.inj olderTick).2]
        exact idle
      rw [Split, if_neg idle']
      exact inductionHypothesis behindTicks.symm split
  | case3 => exact split.elim

theorem retained_of_ticks (same : samples.map Sample.tick = other.map Sample.tick) :
    (retained samples).map Sample.tick = (retained other).map Sample.tick := by
  rw [retained, retained, List.map_take, List.map_take, List.map_reverse, List.map_reverse, same]

end Ticks

/-- A window in one piece: the peak covers the rate, whatever the hash counts are. -/
theorem peakCovers_of_not_split {samples other : List Sample} (clocked : Clocked samples.reverse)
    (whole : ¬SplitWindow samples) (same : other.map Sample.tick = samples.map Sample.tick)
    (orderly : Orderly other.reverse) : PeakCovers other := by
  intro miners thdIdx miner found isLog
  have ticks := retained_of_ticks same
  rw [getHashratePeak_eq found isLog]
  rcases getHashrate_cases isLog orderly found rfl (show 10 * 1000 < 18446744073709551616 by decide)
    with ⟨run, window, rate⟩ | ⟨-, rate⟩
  · have twin := (window.of_ticks ticks).1
    have wholeRun : ¬Split run := by
      intro split
      have runTaken : run = (retained other).take run.length :=
        List.prefix_iff_eq_take.mp window.recent
      refine whole ⟨_, twin, split_of_ticks ?_ split⟩
      rw [List.map_take, ← ticks, ← List.map_take, ← runTaken]
    have clockedOther : Clocked (retained other) := clocked.retained.of_ticks ticks.symm
    rw [rate]
    cases held : retained other with
    | nil =>
        rw [held] at window
        exact absurd window (not_isWindow_of_short (by omega) (by simp))
    | cons newest rest =>
        rw [held] at window clockedOther
        exact runRate_le_peakOver newest rest run 0 clockedOther window wholeRun
  · rw [rate]
    cases retained other with
    | nil => exact le_refl 0
    | cons newest rest => exact le_peakOver _ _ 0

/-- A run of the same clock and pattern with one hash, found in front of the idle sample. -/
def spiked (samples : List Sample) : List Sample :=
  (spike (retained samples) ++
    (samples.reverse.drop hashLogSize).map (Sample.withHashes false)).reverse

theorem map_tick_spiked (samples : List Sample) :
    (spiked samples).map Sample.tick = samples.map Sample.tick := by
  rw [spiked, List.map_reverse, List.map_append, map_tick_spike, map_tick_withHashes,
    ← List.map_append, retained, List.take_append_drop, List.map_reverse, List.reverse_reverse]

theorem retained_spiked (samples : List Sample) :
    retained (spiked samples) = spike (retained samples) := by
  have length : (spike (retained samples)).length = (retained samples).length := by
    have lengths := congrArg List.length (map_tick_spike (retained samples))
    rwa [List.length_map, List.length_map] at lengths
  rw [spiked, retained, List.reverse_reverse, List.take_append, length]
  by_cases full : hashLogSize ≤ samples.length
  · have held : (retained samples).length = hashLogSize := by
      rw [retained, List.length_take, List.length_reverse]
      omega
    rw [held, Nat.sub_self, List.take_zero, List.append_nil,
      List.take_of_length_le (by rw [length, held])]
  · rw [List.drop_of_length_le (by rw [List.length_reverse]; omega), List.map_nil, List.take_nil,
      List.append_nil, List.take_of_length_le (by rw [length]; exact retained_length_le samples)]

theorem spiked_orderly {samples : List Sample} (clocked : Clocked samples.reverse) :
    Orderly (spiked samples).reverse := by
  have ticks : (spiked samples).reverse.map Sample.tick = samples.reverse.map Sample.tick := by
    rw [List.map_reverse, List.map_reverse, map_tick_spiked]
  have strictly := (clocked.of_ticks ticks.symm).strictly
  have sorted : (spiked samples).reverse.Pairwise fun newer older =>
      older.hashes ≤ newer.hashes := by
    rw [spiked, List.reverse_reverse, List.pairwise_append]
    refine ⟨(spike_sorted _).1, ?_, fun newer _ older member => ?_⟩
    · exact List.pairwise_map.mpr (List.pairwise_of_forall fun _ _ => le_refl _)
    · obtain ⟨sample, -, rfl⟩ := List.mem_map.mp member
      exact newer.hashes_nonneg
  exact (strictly.imp le_of_lt).and sorted

theorem not_peakCovers_spiked {samples : List Sample} (clocked : Clocked samples.reverse)
    (split : SplitWindow samples) : ¬PeakCovers (spiked samples) := by
  intro covers
  obtain ⟨run, window, isSplit⟩ := split
  have isLog := Miner.sampled_isLogOf (spiked samples)
  have covered := covers [Miner.sampled (spiked samples)] 0 _ rfl isLog
  have less := peakOf_spike_lt clocked.retained window isSplit
  obtain ⟨twin, time⟩ := window.of_ticks (map_tick_spike (retained samples)).symm
  rw [getHashratePeak_eq rfl isLog, retained_spiked] at covered
  rcases getHashrate_cases isLog (spiked_orderly clocked)
    (show [Miner.sampled (spiked samples)][0]? = some _ from rfl) rfl
    (show 10 * 1000 < 18446744073709551616 by decide) with ⟨other, window', rate⟩ | ⟨none, -⟩
  · rw [retained_spiked] at window'
    have same : other = (spike (retained samples)).take run.length := window'.unique twin
    have one := hashesFound_spike (by omega) window
    rw [rate, runRate, same, one, time, Int.cast_one, mul_one] at covered
    exact absurd less (not_lt.mpr covered)
  · rw [retained_spiked] at none
    exact none ⟨_, twin⟩

/-- For every clock and every pattern of hashing and idle samples: the peak is at least the
current rate for all hash counts, exactly if no idle sample splits the window of that rate. -/
theorem peakCovers_iff (samples : List Sample) (clocked : Clocked samples.reverse) :
    (∀ other : List Sample, other.map Sample.tick = samples.map Sample.tick →
      Orderly other.reverse → PeakCovers other) ↔ ¬SplitWindow samples := by
  constructor
  · intro covers split
    exact not_peakCovers_spiked clocked split
      (covers _ (map_tick_spiked samples) (spiked_orderly clocked))
  · exact fun whole other same orderly => peakCovers_of_not_split clocked whole same orderly

/-! ## Sample logs -/

theorem peakCovers_iff_warmUp : PeakCovers warmUp := by
  have clocked : Clocked warmUp.reverse := ⟨by simp [warmUp], by simp [warmUp]⟩
  apply (peakCovers_iff warmUp clocked).mpr _ warmUp rfl (by simp [Orderly, warmUp])
  rintro ⟨run, window, split⟩
  have first : IsWindow 10000 (retained warmUp) (warmUp.reverse.take 2) :=
    .pair (by decide) (by decide)
  rw [window.unique first] at split
  simp [warmUp, Split] at split

/-- Thirteen seconds of hashing with a short pause in between. -/
def shortPause : List Sample :=
  [⟨15000, true, 100, by decide, by decide, by decide, by decide⟩,
    ⟨22000, true, 800, by decide, by decide, by decide, by decide⟩,
    ⟨23000, false, 800, by decide, by decide, by decide, by decide⟩,
    ⟨24000, true, 800, by decide, by decide, by decide, by decide⟩,
    ⟨30000, true, 1400, by decide, by decide, by decide, by decide⟩]

/-- The current rate is 100 hashes a second, and the peak is not. -/
theorem shortPause_not_peakCovers :
    Orderly shortPause.reverse ∧ Clocked shortPause.reverse ∧
      getHashrate [Miner.sampled shortPause] 0 10 = 100 ∧
      getHashratePeak [Miner.sampled shortPause] 0 < 100 ∧ ¬PeakCovers shortPause := by
  have rate : getHashrate [Miner.sampled shortPause] 0 10 = 100 := by decide +kernel
  have peak : getHashratePeak [Miner.sampled shortPause] 0 < 100 := by decide +kernel
  refine ⟨by simp [Orderly, shortPause], ⟨by simp [shortPause], by simp [shortPause]⟩, rate, peak,
    fun covers => ?_⟩
  have covered := covers [Miner.sampled shortPause] 0 _ rfl (Miner.sampled_isLogOf shortPause)
  rw [rate] at covered
  exact absurd peak (not_lt.mpr covered)

end EpicMiner.Report
