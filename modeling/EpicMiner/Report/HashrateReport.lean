import EpicMiner.Report.Peak

/-!
Owns `print_hashrate_report`: one row for each thread of a type, and the row of
the sums below them. The last column of the row of sums is not a sum: the loop
leaves the entry of the last thread in it.
-/

namespace EpicMiner.Report

open EpicMiner.Data

/-! ## The report -/

/-- `miner_type_to_str`. -/
def minerTypeToStr : MinerType → String
  | .randomxCpuMiner => "RandomX CPU"
  | .progpowCpuMiner => "ProgPow CPU"
  | .progpowGpuMiner => "ProgPow GPU"

/-- The columns of the report, as exact numbers. The code has doubles and prints one decimal. -/
structure Rates where
  hr10s : ℚ
  hr60s : ℚ
  hr10m : ℚ
  hr60m : ℚ
  hrPeak : ℚ
  hrSess : ℚ

def Rates.zero : Rates := ⟨0, 0, 0, 0, 0, 0⟩

/-- What is appended to `msg`: a text as it stands, or numbers put into the columns. -/
inductive Piece where
  | text (text : String)
  | row (thd : Nat) (rates : Rates)
  | sum (rates : Rates)

/-- `session_time`, from the `session_timestamp` of `pool_ctr` and the clock in seconds. -/
def sessionTime (sessionTimestamp now : Int) : Int :=
  let sinceStart := if sessionTimestamp ≠ 0 then now - sessionTimestamp else 0
  if sinceStart > 24 * 60 * 60 then 24 * 60 * 60 else sinceStart

/-- The columns of one thread. -/
def threadRates (miners : List Miner) (session : Int) (i : Nat) : Rates where
  hr10s := getHashrate miners i 10
  hr60s := getHashrate miners i 60
  hr10m := getHashrate miners i (10 * 60)
  hr60m := getHashrate miners i (60 * 60)
  hrPeak := getHashratePeak miners i
  hrSess := if session > 45 then getHashrate miners i (uint64 (session - 30)) else 0

/-- The last statements of the loop, on `sum_hr_10s` to `sum_hr_sess`. -/
def Rates.accumulate (sums rates : Rates) : Rates where
  hr10s := sums.hr10s + rates.hr10s
  hr60s := sums.hr60s + rates.hr60s
  hr10m := sums.hr10m + rates.hr10m
  hr60m := sums.hr60m + rates.hr60m
  hrPeak := max sums.hrPeak rates.hrPeak
  hrSess := rates.hrSess

/-- `msg`, the sums and `miner_count`. -/
structure Draft where
  msg : List Piece
  sums : Rates
  minerCount : Nat

/-- One round of the loop. -/
def reportThread (miners : List Miner) (type : MinerType) (session : Int) (draft : Draft)
    (i : Nat) : Draft :=
  match miners[i]? with
  | none => draft
  | some miner =>
      if miner.type ≠ type then draft
      else
        let rates := threadRates miners session i
        { msg := draft.msg ++ [.row i rates]
          sums := draft.sums.accumulate rates
          minerCount := draft.minerCount + 1 }

/-- 77 times '-'. -/
def rule : String := "".pushn '-' 77

def reportTitle (type : MinerType) : List Piece :=
  [.text (minerTypeToStr type ++ " HASHRATE REPORT\n"), .text rule,
    .text "\n| THD | 10s cur. | 60s avg. | 10m avg. | 60m avg. |   Peak   | Session avg. |\n"]

/-- `executor::print_hashrate_report`: what it prints, if anything. -/
def printHashrateReport (miners : List Miner) (sessionTimestamp now : Int) (type : MinerType) :
    Option (List Piece) :=
  let session := sessionTime sessionTimestamp now
  let draft := (List.range miners.length).foldl (reportThread miners type session)
    ⟨reportTitle type, .zero, 0⟩
  if draft.minerCount > 0 then
    some (draft.msg ++ [.text rule, .text "\n", .sum draft.sums, .text rule])
  else none

/-! ## Its rows -/

/-- The threads of a type, in order. -/
def threadsOf (miners : List Miner) (type : MinerType) : List Nat :=
  (List.range miners.length).filter fun i => miners[i]?.any (·.type = type)

theorem mem_threadsOf {miners : List Miner} {type : MinerType} {thd : Nat} :
    thd ∈ threadsOf miners type ↔ ∃ miner, miners[thd]? = some miner ∧ miner.type = type := by
  simp only [threadsOf, List.mem_filter, List.mem_range, Option.any_eq_true, decide_eq_true_eq]
  constructor
  · rintro ⟨-, found⟩
    exact found
  · rintro ⟨miner, found, itsType⟩
    exact ⟨(List.getElem?_eq_some_iff.mp found).1, miner, found, itsType⟩

theorem threadsOf_sorted (miners : List Miner) (type : MinerType) :
    (threadsOf miners type).Pairwise (· < ·) :=
  List.pairwise_lt_range.filter _

/-- The rows of threads that a report shows. -/
def shownRows (msg : List Piece) : List (Nat × Rates) :=
  msg.filterMap fun
    | .row thd rates => some (thd, rates)
    | _ => none

/-- The rows of sums that a report shows. -/
def shownSums (msg : List Piece) : List Rates :=
  msg.filterMap fun
    | .sum rates => some rates
    | _ => none

theorem reportThread_eq (miners : List Miner) (type : MinerType) (session : Int) (draft : Draft)
    (i : Nat) :
    reportThread miners type session draft i =
      if miners[i]?.any (·.type = type) then
        { msg := draft.msg ++ [.row i (threadRates miners session i)]
          sums := draft.sums.accumulate (threadRates miners session i)
          minerCount := draft.minerCount + 1 }
      else draft := by
  unfold reportThread
  cases miners[i]? with
  | none => rfl
  | some miner => simp

/-- The rounds of the loop append the rows of the threads of the type. -/
theorem foldl_reportThread (miners : List Miner) (type : MinerType) (session : Int)
    (places : List Nat) (draft : Draft) :
    let threads := places.filter fun i => miners[i]?.any (·.type = type)
    places.foldl (reportThread miners type session) draft =
      { msg := draft.msg ++ threads.map fun i => .row i (threadRates miners session i)
        sums := (threads.map (threadRates miners session)).foldl Rates.accumulate draft.sums
        minerCount := draft.minerCount + threads.length } := by
  induction places generalizing draft with
  | nil => simp
  | cons i places inductionHypothesis =>
      rw [List.foldl_cons, inductionHypothesis, reportThread_eq]
      by_cases isOfType : miners[i]?.any (·.type = type) = true
      · simp [isOfType, Nat.add_assoc, Nat.add_comm]
      · simp [isOfType]

/-- With a thread of the type, the report shows its rows and one row of sums. -/
theorem printHashrateReport_shows {miners : List Miner} {type : MinerType}
    (nonempty : threadsOf miners type ≠ []) (sessionTimestamp now : Int) :
    let rates := threadRates miners (sessionTime sessionTimestamp now)
    ∃ msg, printHashrateReport miners sessionTimestamp now type = some msg ∧
      shownRows msg = (threadsOf miners type).map (fun thd => (thd, rates thd)) ∧
      shownSums msg = [((threadsOf miners type).map rates).foldl Rates.accumulate .zero] := by
  intro rates
  have positive : 0 + (threadsOf miners type).length > 0 := by
    have length := List.length_pos_iff.mpr nonempty
    omega
  rw [printHashrateReport, foldl_reportThread]
  refine ⟨_, if_pos positive, ?_, ?_⟩
  · simp [shownRows, reportTitle, threadsOf, rates]
  · simp [shownSums, reportTitle, threadsOf, rates]

/-- What the row of sums shows: sums, the highest peak, and in the last column the entry of the
last thread. -/
theorem foldl_accumulate (rows : List Rates) (sums : Rates) :
    rows.foldl Rates.accumulate sums =
      { hr10s := sums.hr10s + (rows.map Rates.hr10s).sum
        hr60s := sums.hr60s + (rows.map Rates.hr60s).sum
        hr10m := sums.hr10m + (rows.map Rates.hr10m).sum
        hr60m := sums.hr60m + (rows.map Rates.hr60m).sum
        hrPeak := (rows.map Rates.hrPeak).foldl max sums.hrPeak
        hrSess := (rows.getLast?.map Rates.hrSess).getD sums.hrSess } := by
  induction rows generalizing sums with
  | nil => simp
  | cons rates rows inductionHypothesis =>
      rw [List.foldl_cons, inductionHypothesis]
      cases rows with
      | nil => simp [Rates.accumulate]
      | cons next rows => simp [Rates.accumulate, add_assoc, List.getLast?_cons]

end EpicMiner.Report
