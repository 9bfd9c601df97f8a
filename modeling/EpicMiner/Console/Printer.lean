import EpicMiner.Data.JsonParts
import EpicMiner.Library.Monitor

/-!
Owns `printer` of `console.hpp`: the event loop and the builder threads print through one
mutex, to a fully buffered `stdout` and to a log file. Messages come out whole and in the
order in which their threads obtained the mutex, and a message that is out is out of the
buffers as well.
-/

namespace EpicMiner.Console

open EpicMiner.Library
open EpicMiner.Data

/-! ## Streams -/

/-- A `FILE` that is written to: what has left its buffer, and what has not. -/
structure Stream where
  shown : Bytes
  buffered : Bytes
deriving DecidableEq

namespace Stream

def text (stream : Stream) : Bytes :=
  stream.shown ++ stream.buffered

/-- `fputs`. How much of the buffer the library lets go of is its own choice. -/
structure Puts (text : Bytes) (before after : Stream) : Prop where
  text : after.text = before.text ++ text
  shown : before.shown <+: after.shown

/-- `fflush`. -/
def flush (stream : Stream) : Stream where
  shown := stream.text
  buffered := []

@[simp] theorem text_flush (stream : Stream) : stream.flush.text = stream.text :=
  List.append_nil _

theorem shown_prefix (stream : Stream) : stream.shown <+: stream.text :=
  List.prefix_append _ _

end Stream

/-- Where `printer` writes to; `logfile` may be the null pointer. -/
structure Output where
  stdout : Stream
  logfile : Option Stream
deriving DecidableEq

/-! ## Actions -/

inductive Action where
  | fputsStdout (text : Bytes)
  | fflushStdout
  | fputsLogfile (text : Bytes)
  | fflushLogfile
deriving DecidableEq

namespace Action

/-- What an action does. Nothing happens to a log file that is not there. -/
inductive Does : Action → Output → Output → Prop
  | fputsStdout (text : Bytes) (output : Output) (stdout : Stream) :
      output.stdout.Puts text stdout →
      Does (.fputsStdout text) output { output with stdout := stdout }
  | fflushStdout (output : Output) :
      Does .fflushStdout output { output with stdout := output.stdout.flush }
  | fputsLogfile (text : Bytes) (output : Output) (logfile : Option Stream) :
      Option.Rel (Stream.Puts text) output.logfile logfile →
      Does (.fputsLogfile text) output { output with logfile := logfile }
  | fflushLogfile (output : Output) :
      Does .fflushLogfile output { output with logfile := output.logfile.map Stream.flush }

/-- What an action adds to `stdout`. -/
def shown : Action → Bytes
  | .fputsStdout text => text
  | _ => []

/-- What an action adds to the log file. -/
def logged : Action → Bytes
  | .fputsLogfile text => text
  | _ => []

end Action

/-! ## Messages -/

inductive OutColours where
  | kRed
  | kGreen
  | kBlue
  | kYellow
  | kCyan
  | kMagenta
  | kWhite
  | kNone
deriving DecidableEq, Repr

/-- The byte that starts an escape sequence. -/
def escape : UInt8 := 27

/-- What `set_colour` writes. -/
def OutColours.sequence : OutColours → Bytes
  | .kRed => escape :: ascii "[1;31m"
  | .kGreen => escape :: ascii "[1;32m"
  | .kBlue => escape :: ascii "[1;34m"
  | .kYellow => escape :: ascii "[1;33m"
  | .kCyan => escape :: ascii "[1;36m"
  | .kMagenta => escape :: ascii "[1;35m"
  | .kWhite => escape :: ascii "[1;37m"
  | .kNone => []

def setColour : OutColours → List Action
  | .kNone => []
  | colour => [.fputsStdout colour.sequence]

def resetSequence : Bytes :=
  escape :: ascii "[0m"

def resetColour : List Action :=
  [.fputsStdout resetSequence, .fflushStdout]

/-- The arguments of `print`. A `double` stands for the digits that `snprintf` makes of it,
and the integer types for their value. -/
inductive PrintArg where
  | colour (colour : OutColours)
  | str (str : Bytes)
  | double (digits : Bytes)
  | integer (value : Int)

/-- `parse_print_arg` for a C string. -/
def parsePrintStr (str : Bytes) : List Action :=
  [.fputsStdout (cString str), .fputsLogfile (cString str)]

/-- What `%lu`, `%ld` and `%u` print. -/
def integerDigits (value : Int) : Bytes :=
  if value < 0 then 45 :: JsonText.decimalDigits value.natAbs
  else JsonText.decimalDigits value.natAbs

/-- The overloads of `parse_print_arg`. -/
def parsePrintArg : PrintArg → List Action
  | .colour colour => setColour colour
  | .str str => parsePrintStr str
  | .double digits => parsePrintStr (digits.take 31)
  | .integer value => parsePrintStr (integerDigits value)

def newline : Bytes := [10]

/-- `parse_print`. -/
def parsePrint : List PrintArg → List Action
  | [] => parsePrintStr newline ++ [.fflushStdout, .fflushLogfile]
  | arg :: args => parsePrintArg arg ++ parsePrint args

/-- The calls that take `print_mutex`. The time stamp of a message is made before. -/
inductive Call where
  | print (stamp : Bytes) (args : List PrintArg)
  | printNt (args : List PrintArg)
  | printStr (str : Bytes)
  | printColoured (colour : OutColours) (str : Bytes)

/-- What a call does while it holds `print_mutex`. -/
def Call.body : Call → List Action
  | .print stamp args => parsePrintStr stamp ++ parsePrint args ++ resetColour
  | .printNt args => parsePrint args ++ resetColour
  | .printStr str =>
      [.fputsStdout (cString str), .fflushStdout, .fputsLogfile (cString str), .fflushLogfile]
  | .printColoured colour str =>
      setColour colour ++
        [.fputsStdout (cString str), .fflushStdout, .fputsLogfile (cString str),
          .fflushLogfile] ++ resetColour

/-- The whole message of a call on `stdout`. -/
def Call.shown (call : Call) : Bytes :=
  call.body.flatMap Action.shown

/-- The whole message of a call in the log file. -/
def Call.logged (call : Call) : Bytes :=
  call.body.flatMap Action.logged

/-- `stdout` and the log file as `printer::printer` and `open_logfile` leave them. -/
structure Output.Initial (output : Output) : Prop where
  stdout : output.stdout = ⟨[], []⟩
  logfile : ∀ stream, output.logfile = some stream → stream = ⟨[], []⟩

/-- `printer` with the threads that print. -/
def printer (ι : Type) : Machine (Monitor ι Call Action Output) (Monitor.Input ι Call) :=
  Monitor.machine Call.body Action.Does Output.Initial

/-! ## What a call leaves behind -/

/-- What the actions of a run add to the two streams. -/
structure Adds (shown logged : Bytes) (before after : Output) : Prop where
  stdout : before.stdout.Puts shown after.stdout
  logfile : Option.Rel (Stream.Puts logged) before.logfile after.logfile

theorem Stream.Puts.refl (stream : Stream) : stream.Puts [] stream :=
  ⟨(List.append_nil _).symm, List.prefix_rfl⟩

theorem Stream.Puts.trans {first second third : Stream} {text more : Bytes}
    (before : first.Puts text second) (after : second.Puts more third) :
    first.Puts (text ++ more) third :=
  ⟨by rw [after.text, before.text, List.append_assoc], before.shown.trans after.shown⟩

theorem Stream.puts_flush (stream : Stream) : stream.Puts [] stream.flush :=
  ⟨by rw [text_flush, List.append_nil], stream.shown_prefix⟩

theorem rel_refl (logfile : Option Stream) : Option.Rel (Stream.Puts []) logfile logfile := by
  cases logfile with
  | none => exact .none
  | some stream => exact .some (.refl stream)

theorem rel_trans {first second third : Option Stream} {text more : Bytes}
    (before : Option.Rel (Stream.Puts text) first second)
    (after : Option.Rel (Stream.Puts more) second third) :
    Option.Rel (Stream.Puts (text ++ more)) first third := by
  cases before with
  | none =>
      cases after
      exact .none
  | some puts =>
      cases after with
      | some puts' => exact .some (puts.trans puts')

theorem rel_flush (logfile : Option Stream) :
    Option.Rel (Stream.Puts []) logfile (logfile.map Stream.flush) := by
  cases logfile with
  | none => exact .none
  | some stream => exact .some stream.puts_flush

namespace Adds

theorem refl (output : Output) : Adds [] [] output output :=
  ⟨.refl _, rel_refl _⟩

theorem trans {shown logged shown' logged' : Bytes} {first second third : Output}
    (before : Adds shown logged first second) (after : Adds shown' logged' second third) :
    Adds (shown ++ shown') (logged ++ logged') first third where
  stdout := before.stdout.trans after.stdout
  logfile := rel_trans before.logfile after.logfile

theorem of_does {action : Action} {before after : Output} (does : action.Does before after) :
    Adds action.shown action.logged before after := by
  cases does with
  | fputsStdout _ _ _ puts => exact ⟨puts, rel_refl _⟩
  | fflushStdout => exact ⟨before.stdout.puts_flush, rel_refl _⟩
  | fputsLogfile _ _ _ puts => exact ⟨.refl _, puts⟩
  | fflushLogfile => exact ⟨.refl _, rel_flush _⟩

theorem of_runs {actions : List Action} {before after : Output}
    (runs : Runs Action.Does actions before after) :
    Adds (actions.flatMap Action.shown) (actions.flatMap Action.logged) before after := by
  induction runs with
  | nil => exact refl _
  | cons does _ inductionHypothesis => exact (of_does does).trans inductionHypothesis

end Adds

/-- Which of the two buffers are known to be empty after an action. -/
def Action.emptied (known : Bool × Bool) : Action → Bool × Bool
  | .fputsStdout _ => (false, known.2)
  | .fflushStdout => (true, known.2)
  | .fputsLogfile _ => (known.1, false)
  | .fflushLogfile => (known.1, true)

structure Empty (known : Bool × Bool) (output : Output) : Prop where
  stdout : known.1 = true → output.stdout.buffered = []
  logfile : known.2 = true → ∀ stream, output.logfile = some stream → stream.buffered = []

theorem Empty.of_runs {actions : List Action} {before after : Output} {known : Bool × Bool}
    (runs : Runs Action.Does actions before after) (empty : Empty known before) :
    Empty (actions.foldl Action.emptied known) after := by
  induction runs generalizing known with
  | nil => exact empty
  | cons does _ inductionHypothesis =>
      apply inductionHypothesis
      cases does with
      | fputsStdout => exact ⟨nofun, empty.logfile⟩
      | fflushStdout => exact ⟨fun _ => rfl, empty.logfile⟩
      | fputsLogfile => exact ⟨empty.stdout, nofun⟩
      | fflushLogfile =>
          refine ⟨empty.stdout, fun _ stream isLog => ?_⟩
          obtain ⟨_, -, rfl⟩ := Option.map_eq_some_iff.mp isLog
          rfl

theorem emptied_parsePrint (args : List PrintArg) (known : Bool × Bool) :
    (parsePrint args).foldl Action.emptied known = (true, true) := by
  induction args generalizing known with
  | nil => rfl
  | cons arg args inductionHypothesis =>
      rw [parsePrint, List.foldl_append]
      exact inductionHypothesis _

/-- Every call flushes what it has written before it gives the mutex up. -/
theorem emptied_body (call : Call) (known : Bool × Bool) :
    call.body.foldl Action.emptied known = (true, true) := by
  cases call with
  | print stamp args =>
      rw [Call.body, List.foldl_append, List.foldl_append, emptied_parsePrint]
      rfl
  | printNt args =>
      rw [Call.body, List.foldl_append, emptied_parsePrint]
      rfl
  | printStr str => rfl
  | printColoured colour str =>
      rw [Call.body, List.foldl_append, List.foldl_append]
      rfl

/-! ## Whole messages -/

variable {ι : Type}

/-- The messages of calls, latest call first. -/
def messages (message : Call → Bytes) (calls : List (ι × Call)) : Bytes :=
  calls.reverse.flatMap fun call => message call.2

theorem messages_cons (message : Call → Bytes) (thread : ι) (call : Call)
    (earlier : List (ι × Call)) :
    messages message ((thread, call) :: earlier) = messages message earlier ++ message call := by
  simp [messages]

/-- The messages of the calls stand on the terminal and in the log file, and nothing else. -/
structure Written (calls : List (ι × Call)) (output : Output) : Prop where
  stdout : output.stdout = ⟨messages Call.shown calls, []⟩
  logfile : ∀ stream, output.logfile = some stream → stream = ⟨messages Call.logged calls, []⟩

/-- A stream holds the messages of the earlier calls outside of its buffer, and a first part
of one more. -/
structure Stream.Along (message : Call → Bytes) (call : Call) (earlier : List (ι × Call))
    (stream : Stream) : Prop where
  shown : messages message earlier <+: stream.shown
  text : ∃ part, part <+: message call ∧ stream.text = messages message earlier ++ part

/-- The threads print whole messages: while nobody holds the mutex, terminal and log file
show exactly the messages of all calls, in the order in which they obtained it, and the
buffers are empty. While somebody does, all messages before are out, and all that is added
is a first part of the one at work. -/
structure Orderly (state : Monitor ι Call Action Output) : Prop where
  free : state.holder = none → Written state.entered state.shared
  held : ∀ thread left, state.holder = some (thread, left) →
    ∃ call earlier, state.entered = (thread, call) :: earlier ∧
      state.shared.stdout.Along Call.shown call earlier ∧
        ∀ stream, state.shared.logfile = some stream → stream.Along Call.logged call earlier

theorem Stream.eq_of_empty {stream : Stream} (empty : stream.buffered = []) :
    stream = ⟨stream.text, []⟩ := by
  obtain ⟨shown, buffered⟩ := stream
  cases empty
  simp [text]

theorem rel_some {text : Bytes} {logfile : Option Stream} {after : Stream}
    (puts : Option.Rel (Stream.Puts text) logfile (some after)) :
    ∃ before, logfile = some before ∧ before.Puts text after := by
  cases puts with
  | some puts => exact ⟨_, rfl, puts⟩

theorem written_of_serial {calls : List (ι × Call)} {output : Output}
    (serial : Monitor.Serial Call.body Action.Does Output.Initial calls output) :
    Written calls output := by
  refine serial.invariant (fun output initial => ?_) fun thread call earlier before after written
    runs => ?_
  · exact ⟨initial.stdout, initial.logfile⟩
  · have adds := Adds.of_runs runs
    have unknown : Empty (false, false) before := ⟨nofun, nofun⟩
    have empty := Empty.of_runs runs unknown
    rw [emptied_body] at empty
    refine ⟨?_, fun stream isLog => ?_⟩
    · rw [Stream.eq_of_empty (empty.stdout rfl), adds.stdout.text, written.stdout, messages_cons]
      simp [Stream.text, Call.shown]
    · have logs := adds.logfile
      rw [isLog] at logs
      obtain ⟨older, wasLog, puts⟩ := rel_some logs
      rw [Stream.eq_of_empty (empty.logfile rfl stream isLog), puts.text,
        written.logfile older wasLog, messages_cons]
      simp [Stream.text, Call.logged]

theorem Stream.along_of_puts {message : Call → Bytes} {call : Call} {earlier : List (ι × Call)}
    {before after : Stream} {part : Bytes} (written : before = ⟨messages message earlier, []⟩)
    (puts : before.Puts part after) (isPart : part <+: message call) :
    after.Along message call earlier := by
  subst written
  refine ⟨puts.shown, part, isPart, ?_⟩
  rw [puts.text]
  simp [text]

theorem printer_orderly (ι : Type) (state : Monitor ι Call Action Output)
    (reachable : (printer ι).Reachable state) : Orderly state := by
  have serialized := Monitor.serialized reachable
  refine ⟨fun free => written_of_serial (serialized.free free), fun thread left held => ?_⟩
  obtain ⟨call, earlier, made, before, entered, whole, serial, runs⟩ :=
    serialized.held thread left held
  have written := written_of_serial serial
  have adds := Adds.of_runs runs
  have isPart : ∀ message : Action → Bytes,
      made.flatMap message <+: call.body.flatMap message := by
    intro message
    rw [whole, List.flatMap_append]
    exact List.prefix_append _ _
  refine ⟨call, earlier, entered, ?_, fun stream isLog => ?_⟩
  · exact Stream.along_of_puts written.stdout adds.stdout (isPart Action.shown)
  · have logs := adds.logfile
    rw [isLog] at logs
    obtain ⟨older, wasLog, puts⟩ := rel_some logs
    exact Stream.along_of_puts (written.logfile older wasLog) puts (isPart Action.logged)

/-! ### Two threads -/

/-- An action of a library that flushes when it is told to. -/
def Action.perform (output : Output) : Action → Output
  | .fputsStdout text =>
      { output with stdout := ⟨output.stdout.shown, output.stdout.buffered ++ text⟩ }
  | .fflushStdout => { output with stdout := output.stdout.flush }
  | .fputsLogfile text =>
      { output with
        logfile := output.logfile.map fun logfile => ⟨logfile.shown, logfile.buffered ++ text⟩ }
  | .fflushLogfile => { output with logfile := output.logfile.map Stream.flush }

theorem Stream.puts_buffered (stream : Stream) (text : Bytes) :
    stream.Puts text ⟨stream.shown, stream.buffered ++ text⟩ :=
  ⟨by simp [Stream.text], List.prefix_rfl⟩

theorem Action.does_perform (action : Action) (output : Output) :
    action.Does output (action.perform output) := by
  cases action with
  | fputsStdout text => exact .fputsStdout text output _ (output.stdout.puts_buffered text)
  | fflushStdout => exact .fflushStdout output
  | fputsLogfile text =>
      refine .fputsLogfile text output _ ?_
      cases output.logfile with
      | none => exact .none
      | some stream => exact .some (stream.puts_buffered text)
  | fflushLogfile => exact .fflushLogfile output

theorem runs_perform (actions : List Action) (output : Output) :
    Runs Action.Does actions output (actions.foldl Action.perform output) := by
  induction actions generalizing output with
  | nil => exact .nil output
  | cons action rest inductionHypothesis =>
      exact .cons (action.does_perform output) (inductionHypothesis _)

def Output.empty : Output where
  stdout := ⟨[], []⟩
  logfile := some ⟨[], []⟩

theorem Output.empty_initial : Output.empty.Initial :=
  ⟨rfl, fun _ opened => (Option.some.inj opened).symm⟩

/-- The message of a thread at a printer that nobody has used. -/
theorem reachable_first {ι : Type} (thread : ι) (call : Call) :
    (printer ι).Reachable
      ⟨call.body.foldl Action.perform Output.empty, none, [(thread, call)]⟩ := by
  have start : (printer ι).Reachable ⟨Output.empty, none, []⟩ :=
    .start ⟨Output.empty_initial, rfl, rfl⟩
  exact Monitor.reachable_call start rfl thread (runs_perform _ _)

def accepted : Call :=
  .printNt [.colour .kGreen, .str (ascii "ok"), .integer 7]

/-- A builder has printed, and the event loop has just obtained the mutex. -/
theorem printer_orderly_twoThreads :
    ∃ state : Monitor Bool Call Action Output, state.holder = some (true, accepted.body) ∧
      Orderly state :=
  ⟨_, rfl, printer_orderly Bool _
    ((reachable_first false accepted).step (.enter true accepted rfl))⟩

/-! ## The log file -/

/-- A text without its escape sequences, each of which ends with an `m`. -/
def withoutEscapes (inside : Bool) : Bytes → Bytes
  | [] => []
  | byte :: rest =>
      if inside then withoutEscapes (byte ≠ 109) rest
      else if byte = escape then withoutEscapes true rest
      else byte :: withoutEscapes false rest

theorem withoutEscapes_clean {text : Bytes} (clean : escape ∉ text) (rest : Bytes) :
    withoutEscapes false (text ++ rest) = text ++ withoutEscapes false rest := by
  induction text with
  | nil => rfl
  | cons byte text inductionHypothesis =>
      have plain : byte ≠ escape := fun same => clean (same ▸ List.mem_cons_self)
      have others := inductionHypothesis fun member => clean (.tail _ member)
      simp [withoutEscapes, plain, others]

/-- The argument brings no escape sequence of its own. -/
def PrintArg.Clean : PrintArg → Prop
  | .str text => escape ∉ text
  | .double digits => escape ∉ digits
  | _ => True

def Call.Clean : Call → Prop
  | .print stamp args => escape ∉ stamp ∧ ∀ arg ∈ args, arg.Clean
  | .printNt args => ∀ arg ∈ args, arg.Clean
  | .printStr str => escape ∉ str
  | .printColoured _ str => escape ∉ str

/-- Taking the escape sequences out of what the actions show gives what they log. -/
def Uncolours (actions : List Action) : Prop :=
  ∀ rest, withoutEscapes false (actions.flatMap Action.shown ++ rest) =
    actions.flatMap Action.logged ++ withoutEscapes false rest

namespace Uncolours

theorem append {actions more : List Action} (first : Uncolours actions)
    (second : Uncolours more) : Uncolours (actions ++ more) := by
  intro rest
  rw [List.flatMap_append, List.append_assoc, first, second, List.flatMap_append,
    List.append_assoc]

theorem parsePrintStr {str : Bytes} (clean : escape ∉ str) :
    Uncolours (parsePrintStr str) := by
  intro rest
  have inString : escape ∉ cString str := fun member =>
    clean ((List.takeWhile_sublist _).mem member)
  simp [Console.parsePrintStr, Action.shown, Action.logged, withoutEscapes_clean inString]

theorem setColour (colour : OutColours) : Uncolours (setColour colour) := by
  intro rest
  cases colour <;> rfl

theorem resetColour : Uncolours resetColour :=
  fun _ => rfl

theorem integerDigits_clean (value : Int) : escape ∉ integerDigits value := by
  have digits : escape ∉ JsonText.decimalDigits value.natAbs := fun member =>
    by
    have isDigit := (JsonText.decimalDigits_isDecimal value.natAbs).digit escape member
    cases isDigit
  unfold integerDigits
  split
  · simpa [escape] using digits
  · exact digits

theorem parsePrintArg {arg : PrintArg} (clean : arg.Clean) : Uncolours (parsePrintArg arg) := by
  cases arg with
  | colour colour => exact setColour colour
  | str str => exact parsePrintStr clean
  | double digits => exact parsePrintStr fun member => clean (List.mem_of_mem_take member)
  | integer value => exact parsePrintStr (integerDigits_clean value)

theorem parsePrint {args : List PrintArg} (clean : ∀ arg ∈ args, arg.Clean) :
    Uncolours (parsePrint args) := by
  induction args with
  | nil => exact (parsePrintStr (by decide)).append fun _ => rfl
  | cons arg args inductionHypothesis =>
      have others := inductionHypothesis fun other member => clean other (.tail _ member)
      exact (parsePrintArg (clean arg List.mem_cons_self)).append others

theorem body {call : Call} (clean : call.Clean) : Uncolours call.body := by
  cases call with
  | print stamp args =>
      exact ((parsePrintStr clean.1).append (parsePrint clean.2)).append resetColour
  | printNt args => exact (parsePrint clean).append resetColour
  | printStr str => exact parsePrintStr clean
  | printColoured colour str =>
      have text : Uncolours [.fputsStdout (cString str), .fflushStdout, .fputsLogfile (cString str),
          .fflushLogfile] := fun rest => parsePrintStr clean rest
      exact ((setColour colour).append text).append resetColour

end Uncolours

theorem withoutEscapes_messages {calls : List (ι × Call)}
    (clean : ∀ call ∈ calls, call.2.Clean) :
    withoutEscapes false (messages Call.shown calls) = messages Call.logged calls := by
  have bodies : ∀ later : List (ι × Call), (∀ call ∈ later, call.2.Clean) →
      Uncolours (later.flatMap fun call => call.2.body) := by
    intro later laterClean
    induction later with
    | nil => exact fun _ => rfl
    | cons call later inductionHypothesis =>
        rw [List.flatMap_cons]
        exact (Uncolours.body (laterClean call List.mem_cons_self)).append
          (inductionHypothesis fun other member => laterClean other (.tail _ member))
  have whole := bodies calls.reverse (fun call member => clean call (List.mem_reverse.mp member)) []
  simpa [messages, Call.shown, Call.logged, List.flatMap_assoc, withoutEscapes] using whole

/-- The log file is the terminal without its colours, unless a message brought an escape
sequence of its own. -/
theorem logfile_plain (ι : Type) (state : Monitor ι Call Action Output)
    (reachable : (printer ι).Reachable state) (free : state.holder = none)
    (clean : ∀ call ∈ state.entered, call.2.Clean) (stream : Stream)
    (opened : state.shared.logfile = some stream) :
    withoutEscapes false state.shared.stdout.shown = stream.shown := by
  have written := (printer_orderly ι state reachable).free free
  rw [written.stdout, written.logfile stream opened]
  exact withoutEscapes_messages clean

theorem logfile_plain_accepted :
    withoutEscapes false (accepted.body.foldl Action.perform Output.empty).stdout.shown =
      ascii "ok7\n" := by
  have clean : ∀ call ∈ [(true, accepted)], call.2.Clean := by
    intro call member
    rw [List.mem_singleton.mp member]
    intro arg inCall
    rcases List.mem_cons.mp inCall with rfl | inCall
    · trivial
    rcases List.mem_cons.mp inCall with rfl | inCall
    · change escape ∉ ascii "ok"
      decide
    · rw [List.mem_singleton.mp inCall]
      trivial
  exact (logfile_plain Bool _ (reachable_first true accepted) rfl clean _ rfl).trans (by decide)

end EpicMiner.Console
