import EpicMiner.EventLoop.Footprint
import EpicMiner.EventLoop.Slots
import EpicMiner.Report.ErrorLog

/-!
Owns what the error report says about a run. Every text that was logged has one row, with the
number of its calls and the time since the last of them, which `human_ts` takes apart exactly
unless the clock was set back.
-/

namespace EpicMiner.Report

open EpicMiner.Data

/-! ## Time spans -/

theorem uint32_tmod (value divisor : Nat) (positive : 0 < divisor)
    (small : divisor < 4294967296) : uint32 (Int.tmod value divisor) = value % divisor := by
  have bound := Nat.mod_lt value positive
  unfold uint32
  rw [← Int.ofNat_tmod]
  omega

/-- A span that fits 32 bits is taken apart into days, hours, minutes and seconds. Each line
follows one assignment of the constructor. -/
theorem humanTs_eq {elapsed : Nat} (fits : elapsed < 4294967296) :
    humanTs elapsed =
      ⟨elapsed / 86400, elapsed / 3600 % 24, elapsed / 60 % 60, elapsed % 60⟩ := by
  have secs : uint32 (Int.tmod elapsed 60) = elapsed % 60 :=
    uint32_tmod elapsed 60 (by decide) (by decide)
  have lessSecs : (elapsed : Int) - (elapsed % 60 : Nat) = (elapsed / 60 * 60 : Nat) := by omega
  have mins : uint32 (Int.tmod (elapsed / 60 * 60 : Nat) (60 * 60)) = elapsed / 60 * 60 % 3600 :=
    uint32_tmod (elapsed / 60 * 60) 3600 (by decide) (by decide)
  have lessMins : ((elapsed / 60 * 60 : Nat) : Int) - (elapsed / 60 * 60 % 3600 : Nat) =
      (elapsed / 3600 * 3600 : Nat) := by omega
  have hrs : uint32 (Int.tmod (elapsed / 3600 * 3600 : Nat) (60 * 60 * 24)) =
      elapsed / 3600 * 3600 % 86400 :=
    uint32_tmod (elapsed / 3600 * 3600) 86400 (by decide) (by decide)
  have lessHrs : ((elapsed / 3600 * 3600 : Nat) : Int) - (elapsed / 3600 * 3600 % 86400 : Nat) =
      (elapsed / 86400 * 86400 : Nat) := by omega
  have days : uint32 (elapsed / 86400 * 86400 : Nat) = elapsed / 86400 * 86400 := by
    unfold uint32
    omega
  simp only [humanTs, secs, lessSecs, mins, lessMins, hrs, lessHrs, days, HumanTs.mk.injEq]
  have daysLeft : elapsed / 86400 * 86400 / (24 * 60 * 60) = elapsed / 86400 := by omega
  have hrsLeft : elapsed / 3600 * 3600 % 86400 / (60 * 60) = elapsed / 3600 % 24 := by omega
  have minsLeft : elapsed / 60 * 60 % 3600 / 60 = elapsed / 60 % 60 := by omega
  exact ⟨daysLeft, hrsLeft, minsLeft, trivial⟩

/-! ## The log as a map -/

/-- What the log holds of a text. -/
def ErrorLog.info (log : ErrorLog) (text : Bytes) : Option ErrorInfo :=
  (log.entries.find? fun entry => entry.1.text = text).map Prod.snd

theorem ErrorLog.info_isSome_iff (log : ErrorLog) (text : Bytes) :
    (log.info text).isSome = true ↔ text ∈ log.entries.map (·.1.text) := by
  rw [info, Option.isSome_map, List.find?_isSome, List.mem_map]
  simp

/-- A call counts its own text, and leaves the other texts alone. -/
theorem ErrorLog.info_logError (log : ErrorLog) (errorMsg : StdString) (now : Int) (text : Bytes) :
    (log.logError errorMsg now).info text =
      if errorMsg.text = text then some ⟨now, (log.info text).elim 0 (·.count) + 1⟩
      else log.info text := by
  unfold logError
  split
  case isTrue known =>
    let update : StdString × ErrorInfo → StdString × ErrorInfo := fun entry =>
      if entry.1.text = errorMsg.text then (entry.1, ⟨now, entry.2.count + 1⟩)
      else (entry.1, entry.2)
    have same : ∀ entry, (update entry).1.text = entry.1.text := by
      intro entry
      dsimp only [update]
      split <;> rfl
    have found : ((log.entries.map update).find? fun entry => entry.1.text = text) =
        (log.entries.find? fun entry => entry.1.text = text).map update := by
      rw [List.find?_map]
      simp only [Function.comp_def, same]
    change ((log.entries.map update).find? fun entry => entry.1.text = text).map Prod.snd = _
    rw [found, Option.map_map]
    cases first : log.entries.find? fun entry => entry.1.text = text with
    | none =>
        rw [info, first]
        have absent : errorMsg.text ≠ text := by
          rintro rfl
          obtain ⟨entry, member, isText⟩ := List.mem_map.mp known
          have other := List.find?_eq_none.mp first entry member
          exact other (by simpa using isText)
        rw [if_neg absent]
        rfl
    | some entry =>
        have isText : entry.1.text = text := by simpa using List.find?_some first
        rw [info, first]
        by_cases its : errorMsg.text = text
        · simp [update, its, isText]
        · simp [update, its, isText, Ne.symm its]
  case isFalse fresh =>
    change (((errorMsg, (⟨now, 1⟩ : ErrorInfo)) :: log.entries).find?
      fun entry => entry.1.text = text).map Prod.snd = _
    by_cases its : errorMsg.text = text
    · subst its
      have unknown : log.info errorMsg.text = none := by
        rw [← Option.not_isSome_iff_eq_none, log.info_isSome_iff]
        exact fresh
      simp [unknown]
    · simp [its, info]

/-! ## The rows of a text -/

/-- The cells in the second column of the rows of a text. -/
def cellsOf (text : Bytes) (msg : List LogPiece) : List Cell :=
  msg.filterMap fun
    | .row _ _ .blank => none
    | .row error _ cell => if error.text = text then some cell else none
    | .text _ => none

/-- The cells for a text that was logged with this. -/
def infoCells (now : Int) (info : ErrorInfo) : List Cell :=
  let ts := humanTs (now - info.lastSeen)
  [.lastSeen (uint32 (ts.days * 24 + ts.hrs)) ts.mins ts.secs, .count info.count]

theorem cellsOf_entryPieces (text : Bytes) (now : Int) (error : StdString) (info : ErrorInfo) :
    cellsOf text (entryPieces now error info) =
      if error.text = text then infoCells now info else [] := by
  unfold entryPieces cellsOf infoCells
  by_cases same : error.text = text
  · subst same
    by_cases longIn : error.text.length > 120 <;>
      by_cases longer : error.text.length > 180 <;> simp [longIn, longer]
  · by_cases longIn : error.text.length > 120 <;>
      by_cases longer : error.text.length > 180 <;> simp [same, longIn, longer]

theorem cellsOf_append (text : Bytes) (msg rest : List LogPiece) :
    cellsOf text (msg ++ rest) = cellsOf text msg ++ cellsOf text rest :=
  List.filterMap_append

/-- Texts that are logged once have one row, and the others none. -/
theorem cellsOf_flatMap {entries : List (StdString × ErrorInfo)}
    (distinct : (entries.map (·.1.text)).Nodup) (text : Bytes) (now : Int) :
    cellsOf text (entries.flatMap fun (error, info) => entryPieces now error info) =
      ((entries.find? fun entry => entry.1.text = text).map Prod.snd).elim [] (infoCells now) := by
  induction entries with
  | nil => rfl
  | cons entry entries inductionHypothesis =>
      obtain ⟨unknown, later⟩ := List.nodup_cons.mp distinct
      rw [List.flatMap_cons, cellsOf_append, cellsOf_entryPieces, inductionHypothesis later]
      by_cases same : entry.1.text = text
      · subst same
        have none : (entries.find? fun other => other.1.text = entry.1.text) = none := by
          rw [List.find?_eq_none]
          intro other member isText
          have listed : other.1.text ∈ entries.map (·.1.text) := List.mem_map_of_mem member
          rw [of_decide_eq_true isText] at listed
          exact unknown listed
        rw [none, if_pos rfl, List.find?_cons_of_pos (by simp)]
        exact List.append_nil _
      · rw [if_neg same, List.find?_cons_of_neg (by simpa using same)]
        rfl

theorem cellsOf_printErrorLog (log : ErrorLog) (text : Bytes) (now : Int) :
    cellsOf text (printErrorLog log now) = (log.info text).elim [] (infoCells now) := by
  unfold printErrorLog
  split
  case isTrue empty =>
    rw [ErrorLog.info, List.length_eq_zero_iff.mp empty]
    rfl
  case isFalse =>
    rw [cellsOf_append, cellsOf_flatMap log.distinct]
    rfl

/-- The row of a text that was last seen so many seconds ago. -/
def exactCells (elapsed count : Nat) : List Cell :=
  [.lastSeen (elapsed / 3600) (elapsed / 60 % 60) (elapsed % 60), .count count]

theorem infoCells_eq {now lastSeen : Int} {count elapsed : Nat} (fits : elapsed < 4294967296)
    (since : now - lastSeen = elapsed) :
    infoCells now ⟨lastSeen, count⟩ = exactCells elapsed count := by
  have whole : elapsed / 86400 * 24 + elapsed / 3600 % 24 = elapsed / 3600 := by omega
  have hours : uint32 ((elapsed / 86400 : Nat) * 24 + (elapsed / 3600 % 24 : Nat)) =
      elapsed / 3600 := by
    have cast : ((elapsed / 86400 : Nat) * 24 + (elapsed / 3600 % 24 : Nat) : Int) =
        (elapsed / 3600 : Nat) := congrArg Int.ofNat whole
    rw [cast]
    unfold uint32
    omega
  simp only [infoCells, since, humanTs_eq fits, hours, exactCells]

/-! ## Calls -/

/-- What a list of calls, latest first, leaves of a text. -/
def infoOf (calls : List (Bytes × Int)) (text : Bytes) : Option ErrorInfo :=
  (calls.find? fun call => call.1 = text).map fun last =>
    ⟨last.2, (calls.map Prod.fst).count text⟩

theorem infoOf_count (calls : List (Bytes × Int)) (text : Bytes) :
    (infoOf calls text).elim 0 (·.count) = (calls.map Prod.fst).count text := by
  unfold infoOf
  cases found : calls.find? fun call => call.1 = text with
  | some last => rfl
  | none =>
      refine (List.count_eq_zero_of_not_mem fun member => ?_).symm
      obtain ⟨call, called, isText⟩ := List.mem_map.mp member
      exact List.find?_eq_none.mp found call called (by simpa using isText)

theorem infoOf_cons (called : Bytes) (now : Int) (calls : List (Bytes × Int)) (text : Bytes) :
    infoOf ((called, now) :: calls) text =
      if called = text then some ⟨now, (infoOf calls text).elim 0 (·.count) + 1⟩
      else infoOf calls text := by
  by_cases same : called = text
  · rw [if_pos same, infoOf_count]
    simp [infoOf, same]
  · simp [infoOf, same]

/-- The calls of one callback, the latest text first, with what lies behind each string. -/
def ErrorLog.logAll (beyond : Bytes) (now : Int) (texts : List Bytes) (log : ErrorLog) : ErrorLog :=
  texts.foldr (fun text log => log.logError ⟨text, beyond⟩ now) log

theorem ErrorLog.info_logAll {log : ErrorLog} {calls : List (Bytes × Int)}
    (known : ∀ text, log.info text = infoOf calls text) (beyond : Bytes) (now : Int)
    (texts : List Bytes) (text : Bytes) :
    (log.logAll beyond now texts).info text =
      infoOf (texts.map (fun called => (called, now)) ++ calls) text := by
  induction texts generalizing text with
  | nil => exact known text
  | cons called texts inductionHypothesis =>
      have step := info_logError (log.logAll beyond now texts) ⟨called, beyond⟩ now text
      rw [inductionHypothesis] at step
      rw [List.map_cons, List.cons_append, infoOf_cons]
      exact step

/-! ## Runs -/

open EpicMiner.Library
open EpicMiner.EventLoop (Sys Effect newEntries newEntries_eq)

variable {Engine : Type}

def loggedTexts (log : List Effect) : List Bytes :=
  log.filterMap fun
    | .logError text => some text
    | _ => none

/-- The event loop with `error_log`. The calls of `log_error` so far stand beside it, each with
the time that it read, latest first. -/
structure Reporting (Engine : Type) where
  sys : Sys Engine
  errorLog : ErrorLog
  calls : List (Bytes × Int)

/-- An event, and what lies in memory behind the strings of its callback. -/
structure ReportingInput where
  input : EventLoop.Input
  beyond : Bytes

namespace Reporting

def step (env : EventLoop.Env Engine) (reporting : Reporting Engine) (input : ReportingInput) :
    Option (Reporting Engine) :=
  (EventLoop.step env reporting.sys input.input).map fun next =>
    let texts := loggedTexts (newEntries reporting.sys next)
    let now := input.input.nowSeconds
    { sys := next
      errorLog := reporting.errorLog.logAll input.beyond now texts
      calls := texts.map (fun called => (called, now)) ++ reporting.calls }

structure Initial (reporting : Reporting Engine) : Prop where
  sys : EventLoop.Initial reporting.sys
  errorLog : reporting.errorLog = .empty
  calls : reporting.calls = []

def machine (env : EventLoop.Env Engine) : Machine (Reporting Engine) ReportingInput :=
  .ofPartial Initial (step env)

/-- The error log is that of the calls, and these are the ones in the log of the event loop. -/
structure Accounted (env : EventLoop.Env Engine) (reporting : Reporting Engine) : Prop where
  loop : (EventLoop.machine env).Reachable reporting.sys
  known : ∀ text, reporting.errorLog.info text = infoOf reporting.calls text
  texts : reporting.calls.map Prod.fst = loggedTexts reporting.sys.app.log

theorem Accounted.step {env : EventLoop.Env Engine} {reporting next : Reporting Engine}
    {input : ReportingInput} (accounted : Accounted env reporting)
    (stepped : reporting.step env input = some next) : Accounted env next := by
  obtain ⟨sys, ran, rfl⟩ := Option.map_eq_some_iff.mp stepped
  have attached := EventLoop.reachable_attached accounted.loop
  have took : (EventLoop.machine env).Step reporting.sys input.input sys := ran
  obtain ⟨⟨newer, _, scripted⟩, -⟩ := (EventLoop.footprint_turn env).step attached took
  constructor
  case loop => exact accounted.loop.step took
  case known => exact ErrorLog.info_logAll accounted.known input.beyond _ _
  case texts =>
    have grown := scripted.log
    rw [newEntries_eq grown, grown, List.map_append, accounted.texts]
    unfold loggedTexts
    rw [List.filterMap_append, List.map_map]
    simp [Function.comp_def]

theorem reachable_accounted {env : EventLoop.Env Engine} {reporting : Reporting Engine}
    (reachable : (machine env).Reachable reporting) : Accounted env reporting := by
  have initially : ∀ start, (machine env).Initial start → Accounted env start := by
    intro start initial
    constructor
    case loop => exact .start initial.sys
    case known =>
      intro text
      rw [initial.errorLog, initial.calls]
      rfl
    case texts =>
      rw [initial.calls, initial.sys.logEmpty]
      rfl
  exact reachable.invariant initially fun _ _ _ _ accounted stepped _ => accounted.step stepped

end Reporting

/-- In every run of the event loop, and unless the clock was set back or stood for more than
2^32 seconds: the error report has one row for each text that was logged, with the number of its
calls in the run and the exact time since the last of them, and it has no other row. -/
theorem error_report_accounts (env : EventLoop.Env Engine) (reporting : Reporting Engine)
    (reachable : (Reporting.machine env).Reachable reporting) (now : Int)
    (steady : ∀ call ∈ reporting.calls, call.2 ≤ now ∧ now - call.2 < 4294967296) :
    reporting.calls.map Prod.fst = loggedTexts reporting.sys.app.log ∧
      ∀ text, cellsOf text (printErrorLog reporting.errorLog now) =
        match reporting.calls.find? fun call => call.1 = text with
        | none => []
        | some last =>
            exactCells (now - last.2).toNat ((loggedTexts reporting.sys.app.log).count text) := by
  have accounted := Reporting.reachable_accounted reachable
  refine ⟨accounted.texts, fun text => ?_⟩
  rw [cellsOf_printErrorLog, accounted.known, infoOf, accounted.texts]
  cases found : reporting.calls.find? fun call => call.1 = text with
  | none => rfl
  | some last =>
      obtain ⟨before, small⟩ := steady last (List.mem_of_find?_eq_some found)
      exact infoCells_eq (by omega) (by omega)

/-- Two dials that fail for the same reason. -/
def failedDials : List ReportingInput :=
  [(EventLoop.Event.heartbeat.at 20000), (EventLoop.Event.dnsResolved (-3008) [] 0).at 20010,
    EventLoop.Event.heartbeat.at 31000, (EventLoop.Event.dnsResolved (-3008) [] 0).at 31010].map
    fun input => ⟨input, []⟩

theorem error_report_accounts_failedDials :
    ∃ reporting : Reporting Unit, (Reporting.machine .sample).Reachable reporting ∧
      reporting.calls.map Prod.snd = [31, 20] ∧
      reporting.calls.map Prod.fst = loggedTexts reporting.sys.app.log ∧
        ∀ text, cellsOf text (printErrorLog reporting.errorLog 7300) =
          match reporting.calls.find? fun call => call.1 = text with
          | none => []
          | some last =>
              exactCells (7300 - last.2).toNat
                ((loggedTexts reporting.sys.app.log).count text) := by
  have initial : Reporting.Initial ⟨.start, .empty, []⟩ :=
    ⟨EventLoop.Sys.start_initial, rfl, rfl⟩
  have executed := Machine.execute_reachable initial (Reporting.step .sample) failedDials
    (fun reporting => reporting.calls.map Prod.snd = [31, 20] ∧
      ∀ call ∈ reporting.calls, call.2 ≤ 7300 ∧ 7300 - call.2 < 4294967296) (by decide +kernel)
  exact ⟨_, executed.1, executed.2.1, error_report_accounts .sample _ executed.1 7300 executed.2.2⟩

end EpicMiner.Report
