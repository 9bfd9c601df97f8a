import EpicMiner.Data.Bytes

/-!
Owns the error log and `print_error_log`, which prints a text in segments of 60
characters through a pointer that it moves along. The second segment is printed
for every text, so for a text of less than 60 characters the pointer is moved past
the end of it.
-/

namespace EpicMiner.Report

open EpicMiner.Data

/-! ## The log -/

/-- A `std::string` and what lies in memory behind its NUL. -/
structure StdString where
  text : Bytes
  beyond : Bytes

/-- What `c_str()` points to. -/
def StdString.memory (string : StdString) : Bytes :=
  string.text ++ 0 :: string.beyond

/-- `error_info`. -/
structure ErrorInfo where
  lastSeen : Int
  count : Nat

/-- `error_log`, in the order of its iteration. -/
structure ErrorLog where
  entries : List (StdString × ErrorInfo)
  distinct : (entries.map (·.1.text)).Nodup

def ErrorLog.empty : ErrorLog where
  entries := []
  distinct := List.nodup_nil

/-- `executor::log_error`. -/
def ErrorLog.logError (log : ErrorLog) (errorMsg : StdString) (now : Int) : ErrorLog :=
  if known : errorMsg.text ∈ log.entries.map (·.1.text) then
    { entries := log.entries.map fun (error, info) =>
        if error.text = errorMsg.text then (error, ⟨now, info.count + 1⟩) else (error, info)
      distinct := by
        have same : ∀ entry : StdString × ErrorInfo,
            (if entry.1.text = errorMsg.text then (entry.1, ErrorInfo.mk now (entry.2.count + 1))
              else (entry.1, entry.2)).1.text = entry.1.text := by
          intro entry
          split <;> rfl
        simpa [Function.comp_def, same] using log.distinct }
  else
    { entries := (errorMsg, ⟨now, 1⟩) :: log.entries
      distinct := List.nodup_cons.mpr ⟨known, log.distinct⟩ }

/-! ## Printing it -/

/-- Conversion to `uint32_t`. -/
def uint32 (value : Int) : Nat :=
  (value % 4294967296).toNat

structure HumanTs where
  days : Nat
  hrs : Nat
  mins : Nat
  secs : Nat

/-- The constructor of `human_ts`. -/
def humanTs (tsSec : Int) : HumanTs :=
  let secs := uint32 (tsSec.tmod 60)
  let tsSec := tsSec - secs
  let mins := uint32 (tsSec.tmod (60 * 60))
  let tsSec := tsSec - mins
  let hrs := uint32 (tsSec.tmod (60 * 60 * 24))
  let tsSec := tsSec - hrs
  { days := uint32 tsSec / (24 * 60 * 60)
    hrs := hrs / (60 * 60)
    mins := mins / 60
    secs := secs }

/-- The second column. -/
inductive Cell where
  | blank
  | lastSeen (hours mins secs : Nat)
  | count (count : Nat)

/-- What is appended to `msg`: a text as it stands, or the output of `snprintf` for
`"| %-60.60s |"` and a cell, with a pointer that is `input` characters into a string. -/
inductive LogPiece where
  | text (text : String)
  | row (error : StdString) (input : Nat) (cell : Cell)

/-- What `%.60s` prints. -/
def StdString.segment (error : StdString) (input : Nat) : Bytes :=
  (cString (error.memory.drop input)).take 60

def tableRule : String := "".pushn '-' 79

def blankRow : String :=
  "|                                                              |              |\n"

/-- The body of the loop of `print_error_log`. -/
def entryPieces (curTimestemp : Int) (error : StdString) (info : ErrorInfo) : List LogPiece :=
  let ts := humanTs (curTimestemp - info.lastSeen)
  let longIn := error.text.length > 120
  let (msg, input) := if longIn then ([LogPiece.row error 0 .blank], 60) else ([], 0)
  let msg := msg ++
    [.row error input (.lastSeen (uint32 (ts.days * 24 + ts.hrs)) ts.mins ts.secs)]
  let input := input + 60
  let msg := msg ++ [.row error input (.count info.count)]
  let msg :=
    if longIn then
      if error.text.length > 180 then
        let input := input + 60
        msg ++ [.row error input .blank]
      else msg ++ [.text blankRow]
    else msg
  msg ++ [.text tableRule, .text "\n"]

def tableHead : List LogPiece :=
  [.text "ERROR LOG\n", .text tableRule, .text "\n| ", .text ("".pushn ' ' 28), .text "Error",
    .text ("".pushn ' ' 28), .text "|  Last seen   |\n|", .text ("".pushn ' ' 62),
    .text "|    Count     |\n", .text tableRule, .text "\n"]

/-- `executor::print_error_log`. -/
def printErrorLog (log : ErrorLog) (curTimestemp : Int) : List LogPiece :=
  if log.entries.length = 0 then [.text "No errors to report."]
  else tableHead ++ log.entries.flatMap fun (error, info) => entryPieces curTimestemp error info

/-! ## The segments of a text -/

/-- The pointers into the string with that text, and the segments printed there. -/
def segmentsOf (text : Bytes) (msg : List LogPiece) : List (Nat × Bytes) :=
  msg.filterMap fun
    | .row error input _ => if error.text = text then some (input, error.segment input) else none
    | .text _ => none

/-- The pointers stay inside the text, and the segments are its first 240 characters. -/
structure PrintsInside (text : Bytes) (msg : List LogPiece) : Prop where
  inside : ∀ input segment, (input, segment) ∈ segmentsOf text msg → input ≤ text.length
  whole : ((segmentsOf text msg).map Prod.snd).flatten = text.take (min text.length 240)

/-- The pointers for one entry. -/
def inputs (length : Nat) : List Nat :=
  if length > 180 then [0, 60, 120, 180] else if length > 120 then [0, 60, 120] else [0, 60]

theorem segmentsOf_append (text : Bytes) (msg rest : List LogPiece) :
    segmentsOf text (msg ++ rest) = segmentsOf text msg ++ segmentsOf text rest :=
  List.filterMap_append

/-- An entry prints the segments of its own text only. -/
theorem segmentsOf_entryPieces (text : Bytes) (curTimestemp : Int) (error : StdString)
    (info : ErrorInfo) :
    segmentsOf text (entryPieces curTimestemp error info) =
      if error.text = text then
        (inputs error.text.length).map fun input => (input, error.segment input)
      else [] := by
  unfold entryPieces inputs segmentsOf
  by_cases longer : error.text.length > 180
  · have long : error.text.length > 120 := by omega
    by_cases same : error.text = text
    · subst same
      simp [long, longer]
    · simp [long, longer, same]
  · by_cases long : error.text.length > 120
    · by_cases same : error.text = text
      · subst same
        simp [long, longer]
      · simp [long, longer, same]
    · by_cases same : error.text = text
      · subst same
        simp [long, longer]
      · simp [long, same]

/-- In a log, the segments of a text are those of its entry. -/
theorem segmentsOf_flatMap {entries : List (StdString × ErrorInfo)}
    (distinct : (entries.map (·.1.text)).Nodup) {error : StdString} {info : ErrorInfo}
    (logged : (error, info) ∈ entries) (curTimestemp : Int) :
    segmentsOf error.text
        (entries.flatMap fun (other, info) => entryPieces curTimestemp other info) =
      (inputs error.text.length).map fun input => (input, error.segment input) := by
  have none : ∀ others : List (StdString × ErrorInfo), error.text ∉ others.map (·.1.text) →
      segmentsOf error.text
        (others.flatMap fun (other, info) => entryPieces curTimestemp other info) = [] := by
    intro others unknown
    induction others with
    | nil => rfl
    | cons entry others inductionHypothesis =>
        have different := List.ne_of_not_mem_cons unknown
        rw [List.flatMap_cons, segmentsOf_append, segmentsOf_entryPieces,
          if_neg (Ne.symm different), inductionHypothesis (List.not_mem_of_not_mem_cons unknown)]
        rfl
  induction entries with
  | nil => cases logged
  | cons entry entries inductionHypothesis =>
      obtain ⟨unknown, later⟩ := List.nodup_cons.mp distinct
      rw [List.flatMap_cons, segmentsOf_append, segmentsOf_entryPieces]
      rcases List.mem_cons.mp logged with rfl | member
      · rw [if_pos rfl, none entries unknown, List.append_nil]
      · have different : entry.1.text ≠ error.text := by
          intro same
          have listed : error.text ∈ entries.map (·.1.text) := List.mem_map_of_mem member
          rw [← same] at listed
          exact unknown listed
        rw [if_neg different, inductionHypothesis later member, List.nil_append]

theorem segmentsOf_printErrorLog (log : ErrorLog) {error : StdString} {info : ErrorInfo}
    (logged : (error, info) ∈ log.entries) (curTimestemp : Int) :
    segmentsOf error.text (printErrorLog log curTimestemp) =
      (inputs error.text.length).map fun input => (input, error.segment input) := by
  have nonempty : log.entries.length ≠ 0 := by
    intro empty
    rw [List.length_eq_zero_iff] at empty
    rw [empty] at logged
    cases logged
  rw [printErrorLog, if_neg nonempty, segmentsOf_append, segmentsOf_flatMap log.distinct logged]
  rfl

/-! ## Inside the text -/

/-- A pointer into the text shows what follows there, up to a NUL of the text itself. -/
theorem StdString.segment_of_le {error : StdString} {input : Nat}
    (inside : input ≤ error.text.length) :
    error.segment input = cString ((error.text.drop input).take 60) := by
  rw [segment, memory, List.drop_append_of_le_length inside, cString_append_nul, take_cString]

theorem mem_inputs_iff {length input : Nat} : input ∈ inputs length ↔
    input = 0 ∨ input = 60 ∨ (input = 120 ∧ 120 < length) ∨ (input = 180 ∧ 180 < length) := by
  unfold inputs
  split
  · simp
    omega
  · split
    · simp
      omega
    · simp
      omega

theorem mem_inputs_le {length input : Nat} (long : 60 ≤ length) (isInput : input ∈ inputs length) :
    input ≤ length ∧ input ≤ 180 := by
  rw [mem_inputs_iff] at isInput
  omega

/-- The slices at the pointers are the first 240 characters. -/
theorem flatten_slices (text : Bytes) :
    ((inputs text.length).map fun input => (text.drop input).take 60).flatten =
      text.take (min text.length 240) := by
  have slices : text.take 240 = text.take 60 ++ (text.drop 60).take 60 ++
      (text.drop 120).take 60 ++ (text.drop 180).take 60 := by
    rw [← List.take_add, ← List.take_add, ← List.take_add]
  have ends : ∀ start, text.length ≤ start → (text.drop start).take 60 = [] := by
    intro start short
    rw [List.drop_of_length_le short, List.take_nil]
  rw [Nat.min_comm, ← List.take_eq_take_min, slices]
  unfold inputs
  split
  · simp
  · split
    · simp [ends 180 (by omega)]
    · simp [ends 120 (by omega), ends 180 (by omega)]

/-- The pointers for an entry stay inside its text, and the segments are the first 240 characters,
exactly if there are 60 of them and no NUL among the first 240. -/
theorem printsInside_iff (log : ErrorLog) {error : StdString} {info : ErrorInfo}
    (logged : (error, info) ∈ log.entries) (curTimestemp : Int) :
    PrintsInside error.text (printErrorLog log curTimestemp) ↔
      60 ≤ error.text.length ∧ 0 ∉ error.text.take 240 := by
  have segments := segmentsOf_printErrorLog log logged curTimestemp
  constructor
  · intro prints
    have long : 60 ≤ error.text.length := by
      apply prints.inside 60 (error.segment 60)
      rw [segments]
      exact List.mem_map_of_mem (mem_inputs_iff.mpr (.inr (.inl rfl)))
    refine ⟨long, fun member => ?_⟩
    have whole := prints.whole
    rw [Nat.min_comm, ← List.take_eq_take_min] at whole
    rw [← whole, segments, List.map_map, List.mem_flatten] at member
    obtain ⟨segment, isSegment, member⟩ := member
    obtain ⟨input, -, rfl⟩ := List.mem_map.mp isSegment
    exact zero_not_mem_cString _ (List.mem_of_mem_take member)
  · rintro ⟨long, plain⟩
    have slice : ∀ input ∈ inputs error.text.length,
        error.segment input = (error.text.drop input).take 60 := by
      intro input isInput
      obtain ⟨inside, bound⟩ := mem_inputs_le long isInput
      rw [StdString.segment_of_le inside]
      refine cString_of_not_mem fun member => plain ?_
      rw [List.take_drop] at member
      exact (List.take_subset_take_left _ (by omega)) (List.mem_of_mem_drop member)
    refine ⟨fun input segment member => ?_, ?_⟩
    · rw [segments, List.mem_map] at member
      obtain ⟨input', isInput, same⟩ := member
      obtain ⟨rfl, -⟩ := Prod.mk.inj same
      exact (mem_inputs_le long isInput).1
    · rw [segments, List.map_map, ← flatten_slices]
      congr 1
      exact List.map_congr_left slice

/-! ## Sample logs -/

def ErrorLog.single (error : StdString) : ErrorLog :=
  ErrorLog.empty.logError error 100

/-- A text that fills one segment. -/
def longText : StdString :=
  ⟨List.replicate 60 88, []⟩

theorem printsInside_iff_longText :
    PrintsInside longText.text (printErrorLog (.single longText) 200) :=
  (printsInside_iff (.single longText) (.head _) 200).mpr (by decide)

/-- The answer of a pool, with another text behind it in memory. -/
def lowDifficulty : StdString :=
  ⟨ascii "Low difficulty share", List.replicate 39 0 ++ ascii "secret"⟩

/-- The second segment is foreign memory. -/
theorem lowDifficulty_not_printsInside :
    segmentsOf lowDifficulty.text (printErrorLog (.single lowDifficulty) 200) =
        [(0, ascii "Low difficulty share"), (60, ascii "secret")] ∧
      ¬PrintsInside lowDifficulty.text (printErrorLog (.single lowDifficulty) 200) := by
  have segments : segmentsOf lowDifficulty.text (printErrorLog (.single lowDifficulty) 200) =
      [(0, ascii "Low difficulty share"), (60, ascii "secret")] := by
    decide +kernel
  refine ⟨segments, fun prints => ?_⟩
  have inside := prints.inside 60 (ascii "secret") (by rw [segments]; exact .tail _ (.head _))
  exact absurd inside (by decide +kernel)

end EpicMiner.Report
