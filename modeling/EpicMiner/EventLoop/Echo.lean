import EpicMiner.EventLoop.Filling
import EpicMiner.EventLoop.Identity
import EpicMiner.EventLoop.SubmitText

/-!
Owns where the ids of a submit line come from. The id of the miner is that of the
latest login answer, on whatever connection; the id of a job is the one that its
message gave it.
-/

namespace EpicMiner.EventLoop

open EpicMiner.Library
open EpicMiner.Library.Program
open EpicMiner.Data
open EpicMiner.Data.JsonText

variable {Engine : Type}

/-! ## Writing a line -/

/-- What a program writes is `Good`. Under TLS this is said of the bytes that
`do_socket_write` reads in the buffer and over the length that it is handed. -/
def LineWritten (env : Env Engine) (program : (Bytes → Nat → Loop Engine Unit) → Loop Engine Unit)
    (sys : Sys Engine) (Good : Bytes → Prop) : Prop :=
  if env.useTls then
    ∃ prepared data len, HandsOver program sys prepared data len ∧
      Good (readFrom (env.memory prepared.tls.engine) data 0 len)
  else
    Ensures (program (tlsDoSocketWrite env)) sys
      (fun _ next => ∀ slot data len,
        uvWrites next.app.log = (slot, data, len) :: uvWrites sys.app.log → Good data)
      fun _ => True

/-- A line is written at all: on a plain connection it takes a slot. -/
def Sys.Writes (env : Env Engine) (sys : Sys Engine) : Prop :=
  env.useTls = true ∨ sys.Takes

/-- The size of the buffer that a line is formatted into. -/
def lineRoom (env : Env Engine) : Nat :=
  if env.useTls then 1024 else 2048

theorem ensures_sendLine_iff {env : Env Engine} (plain : env.useTls = false) {line : Bytes}
    (nonempty : line ≠ []) (sys : Sys Engine) (Good : Bytes → Prop) :
    Ensures (sendLine env line) sys
        (fun _ next => ∀ slot data len,
          uvWrites next.app.log = (slot, data, len) :: uvWrites sys.app.log → Good data)
        (fun _ => True) ↔
      (sys.Takes → Good ((snprintf 2048 line).take line.length)) := by
  have written (idx : Fin 4) : uvWrites (sys.lineSent idx line).app.log =
      (idx.val, (snprintf 2048 line).take line.length, line.length) :: uvWrites sys.app.log := by
    rw [log_lineSent]
    rfl
  rw [ensures_sendLine plain nonempty]
  constructor
  · rintro ⟨-, sends⟩ ⟨idx, free, idle⟩
    exact (sends idx free).2 idle _ _ _ (written idx)
  · intro good
    refine ⟨fun _ => trivial, fun idx free => ⟨fun _ => trivial, fun idle slot data len same => ?_⟩⟩
    rw [written idx] at same
    injection same with entry
    injection entry with _ entry
    injection entry with sameData
    rw [← sameData]
    exact good ⟨idx, free, idle⟩

/-- What a program writes of a line is good exactly if `Fine`, where that is what makes the
bytes good that the line is sent with. -/
theorem lineWritten_iff {env : Env Engine}
    {program : (Bytes → Nat → Loop Engine Unit) → Loop Engine Unit} {sys prepared : Sys Engine}
    {line : Bytes} {Good : Bytes → Prop} {Fine : Prop} (ended : line.getLast? = some 10)
    (hands : env.useTls = true → HandsOver program sys prepared (snprintf 1024 line) line.length)
    (plain : env.useTls = false →
      (Ensures (program (tlsDoSocketWrite env)) sys
          (fun _ next => ∀ slot data len,
            uvWrites next.app.log = (slot, data, len) :: uvWrites sys.app.log → Good data)
          (fun _ => True) ↔
        (sys.Takes → Good ((snprintf 2048 line).take line.length))))
    (judged : ∀ sent, SentAs (lineRoom env) line sent → (Good sent ↔ Fine)) :
    LineWritten env program sys Good ↔ (sys.Writes env → Fine) := by
  unfold LineWritten Sys.Writes
  unfold lineRoom at judged
  cases tls : env.useTls with
  | true =>
      simp only [tls, if_true] at judged
      simp only [if_true, true_or, true_implies]
      constructor
      · rintro ⟨other, data, len, again, good⟩
        obtain ⟨rfl, rfl, rfl⟩ := (hands tls).unique again
        exact (judged _ (sentAs_readFrom (by decide) _ ended)).mp good
      · intro fine
        exact ⟨prepared, _, _, hands tls, (judged _ (sentAs_readFrom (by decide) _ ended)).mpr fine⟩
  | false =>
      simp only [tls, Bool.false_eq_true, if_false] at judged
      simp only [Bool.false_eq_true, if_false, false_or]
      rw [plain tls, judged _ (sentAs_take (by decide) ended)]

/-! ## Received ids -/

/-- The id that the latest login answer gave, on this connection or an earlier one. -/
def latestId : List Effect → Option Bytes
  | [] => none
  | .document doc :: older => (loginAnswer doc older).or (latestId older)
  | _ :: older => latestId older

/-- The member `job_id` of a job. -/
def jobIdOf : Value → Option Bytes
  | .object params =>
      match firstMember params "job_id" with
      | some (.string jobId) => some jobId
      | _ => none
  | _ => none

/-- The job id in a document, be it a notification or the answer to a login call. -/
def offeredJobId : Value → Option Bytes
  | .object members =>
      match Message.ofMembers members with
      | .job params => jobIdOf (.object params)
      | .reply _ (.ok fields) => (firstMember fields "job").bind jobIdOf
      | _ => none
  | _ => none

def latestJobId : List Effect → Option Bytes
  | [] => none
  | .document doc :: _ => offeredJobId doc
  | _ :: older => latestJobId older

/-- The published jobs, each with the job id in the document that brought it. -/
def receivedJobs : List Effect → List (Option Bytes × MinerJob)
  | [] => []
  | .shared (.publish job) :: older => (latestJobId older, job) :: receivedJobs older
  | _ :: older => receivedJobs older

theorem latestId_append {newer older : List Effect}
    (silent : ∀ effect ∈ newer, effect.isIdentifying = false) :
    latestId (newer ++ older) = latestId older := by
  refine read_append (fun effect older isSilent => ?_) silent
  cases effect <;> first | rfl | cases isSilent

def Effect.isPublish : Effect → Bool
  | .shared (.publish _) => true
  | _ => false

theorem receivedJobs_append {newer older : List Effect}
    (silent : ∀ effect ∈ newer, effect.isPublish = false) :
    receivedJobs (newer ++ older) = receivedJobs older := by
  refine read_append (fun effect older isSilent => ?_) silent
  cases effect with
  | shared op => cases op <;> first | rfl | cases isSilent
  | _ => rfl

/-! ## Inside a callback -/

/-- A job carries the id that its document gave it, up to the first NUL. -/
def KeepsId (entry : Option Bytes × MinerJob) : Prop :=
  ∃ jobId, entry.1 = some jobId ∧ cString entry.2.id.cells = cString jobId

structure Sourced (app : App) : Prop where
  minerId : ∀ id, latestId app.log = some id → app.pool.poolMinerId = cString id
  jobIds : ∀ entry ∈ receivedJobs app.log, KeepsId entry

theorem Sourced.quiet {app next : App} (sourced : Sourced app) (newer : List Effect)
    (log : next.log = newer ++ app.log) (undocumented : ∀ effect ∈ newer, effect.isIdentifying = false)
    (unpublished : ∀ effect ∈ newer, effect.isPublish = false)
    (minerId : next.pool.poolMinerId = app.pool.poolMinerId) : Sourced next := by
  constructor
  · rw [log, latestId_append undocumented, minerId]
    exact sourced.minerId
  · rw [log, receivedJobs_append unpublished]
    exact sourced.jobIds

theorem checkParams_jobId {param : Value} {params : JobParams}
    (found : checkParams param = .ok (some params)) : jobIdOf param = some params.jobid := by
  cases param with
  | object members =>
      simp only [checkParams, Value.getObjectMember, bind, Except.bind] at found
      split at found
      · rename_i isJobId _ _ _ _ _
        cases found
        simp only [jobIdOf, firstMember, isJobId]
      · cases found
  | _ => cases found

theorem takeWhile_append_stop {accept : UInt8 → Bool} {stop : UInt8} (stops : accept stop = false)
    (bytes rest : Bytes) : (bytes ++ stop :: rest).takeWhile accept = bytes.takeWhile accept := by
  induction bytes with
  | nil => simp [stops]
  | cons byte bytes inductionHypothesis =>
      simp only [List.cons_append, List.takeWhile_cons, inductionHypothesis]

/-- A fixed-size field that a string was copied into with its terminator denotes the
string up to its first NUL. -/
theorem cString_write {size : Nat} (field : Buffer size) {text : Bytes} (fits : text.length < size) :
    cString (field.write 0 (text ++ [0])).cells = cString text := by
  have sized := field.sized
  have room : 0 + (text ++ [0]).length ≤ field.cells.length := by
    rw [List.length_append, List.length_singleton]
    omega
  rw [Buffer.cells_write, writeAt_eq _ _ _ room, List.take_zero, List.nil_append,
    List.append_assoc]
  exact takeWhile_append_stop (by decide) text _

theorem published_id (getEpochNumber : Int32 → Int32) (job : PoolJob) :
    (MinerJob.published getEpochNumber job).id = job.id := by
  unfold MinerJob.published
  split <;> rfl

theorem JobOutcome.keepsId {config : Config} {param : Value} {app next : App} {accepted : Bool}
    (outcome : JobOutcome config param app accepted next)
    (offered : latestJobId app.log = jobIdOf param)
    (earlier : ∀ entry ∈ receivedJobs app.log, KeepsId entry) :
    ∀ entry ∈ receivedJobs next.log, KeepsId entry := by
  cases outcome with
  | refused _ => exact earlier
  | rejected _ _ _ _ _ => exact earlier
  | accepted params job found filled =>
      intro entry member
      rcases List.mem_cons.mp member with rfl | member
      · have isFilled := filled_of_accepted filled
        refine ⟨params.jobid, offered.trans (checkParams_jobId found), ?_⟩
        change cString (MinerJob.published _ _).id.cells = _
        rw [published_id]
        change cString job.id.cells = _
        rw [isFilled.id]
        exact cString_write _ isFilled.jobid
      · exact earlier entry member

theorem Sourced.processed {config : Config} {members : List (Bytes × Value)} {app next : App}
    {accepted : Bool} (traced : Traced app) (sourced : Sourced app)
    (processed : Processed config (app.record (.document (.object members)))
      (Message.ofMembers members) accepted next) : Sourced next := by
  constructor
  · obtain ⟨newer, log, identifies⟩ := processed.identifies traced
    have latest : latestId next.log =
        (loginAnswer (.object members) app.log).or (latestId app.log) := by
      rw [log, latestId_append identifies.silent]
      rfl
    intro id found
    rw [latest] at found
    rw [identifies.minerId]
    cases answer : loginAnswer (.object members) app.log with
    | none =>
        rw [answer, Option.none_or] at found
        exact sourced.minerId id found
    | some other =>
        rw [answer, Option.some_or] at found
        cases found
        rfl
  · generalize message : Message.ofMembers members = shape at processed
    cases processed with
    | refused _ => exact sourced.jobIds
    | job outcome =>
        refine outcome.keepsId ?_ sourced.jobIds
        change offeredJobId (.object members) = _
        simp only [offeredJobId, message]
    | replyRefused _ _ _ => exact sourced.jobIds
    | loggedIn _ _ foundJob outcome =>
        refine outcome.keepsId ?_ sourced.jobIds
        change offeredJobId (.object members) = _
        simp only [offeredJobId, message, foundJob, Option.bind_some]
    | kept _ => exact sourced.jobIds
    | @shareReplied callId outcome rtt _ _ =>
        cases error : errorText outcome with
        | none => exact sourced.jobIds
        | some text => exact sourced.jobIds

/-! ## Runs -/

def sourcing : Behaviour Fault (Sys Engine) :=
  .keeping (fun sys => Traced sys.app ∧ Sourced sys.app) fun _ => False

theorem sourcing_quiet {sys next : Sys Engine} (traces : tracing.Change sys next)
    (newer : List Effect) (log : next.app.log = newer ++ sys.app.log)
    (undocumented : ∀ effect ∈ newer, effect.isIdentifying = false)
    (unpublished : ∀ effect ∈ newer, effect.isPublish = false)
    (minerId : next.app.pool.poolMinerId = sys.app.pool.poolMinerId) :
    sourcing.Change sys next :=
  fun ⟨traced, sourced⟩ =>
    ⟨traces traced, sourced.quiet newer log undocumented unpublished minerId⟩

theorem Effect.isPublish_of_routine {effect : Effect} (routine : effect.isRoutine = true) :
    effect.isPublish = false := by
  cases effect with
  | shared op => cases op <;> first | rfl | cases routine
  | _ => rfl

theorem sourcing_turn (env : Env Engine) : Turn env sourcing := by
  have traces := tracing_turn env
  apply traces.beyond
  case fault => exact fun _ _ _ => id
  case routine =>
    intro sys next newer traces routine
    apply sourcing_quiet traces newer routine.log _ _ routine.minerId
    · exact fun effect member => Effect.isIdentifying_of_routine (routine.effects effect member)
    · exact fun effect member => Effect.isPublish_of_routine (routine.effects effect member)
  case document =>
    intro sys members
    apply Ends.processed fun _ _ => id
    intro accepted app processed ⟨traced, sourced⟩
    exact ⟨traced.processed processed, sourced.processed traced processed⟩
  case dialled =>
    intro sys idle ⟨traced, sourced⟩
    exact ⟨traces.dialled sys idle traced, sourced.minerId, sourced.jobIds⟩
  case socketClosed =>
    intro sys due
    apply sourcing_quiet (traces.socketClosed sys due) [_, _, _] rfl _ _ rfl
    · simp [Effect.isIdentifying]
    · simp [Effect.isPublish]

theorem reachable_sourced {env : Env Engine} {sys : Sys Engine}
    (reachable : (machine env).Reachable sys) : Untouched sys ∨ Sourced sys.app := by
  rcases (sourcing_turn env).sinceDial reachable with untouched | ⟨before, untouched, change⟩
  · exact .inl untouched
  · refine .inr (change ⟨untouched.traced, ?_⟩).2
    have log : (Sys.dialled before).app.log = [.dial (!before.net.hSock)] := by
      show Effect.dial _ :: before.app.log = _
      rw [untouched.log]
    constructor
    · rw [log]
      intro id found
      cases found
    · rw [log]
      intro entry member
      cases member

/-- What is written for a share echoes the ids as the server sent them. The callback of a found
share is this program, with the write loop of the TLS path. -/
def ShareEchoed (env : Env Engine) (sys : Sys Engine) (res : MinerResult) (id jobId : Bytes) :
    Prop :=
  LineWritten env (fun write => doSendResultThrough env write res) sys (Echoes id jobId res)

/-- Both ids stand for themselves in JSON, and the line fits its buffer. -/
def Echoable (env : Env Engine) (sys : Sys Engine) (res : MinerResult) (id jobId : Bytes) : Prop :=
  Plain id ∧ Plain jobId ∧
    (submitLine sys.app.pool.poolMinerId res (sys.registration .result res.minerId).2.1).length <
      lineRoom env

theorem shareEchoed_iff (env : Env Engine) (sys : Sys Engine)
    (hasJob : sys.app.pool.state = .hasJob) {res : MinerResult} {id jobId : Bytes}
    (storedId : sys.app.pool.poolMinerId = cString id)
    (storedJobId : cString res.id.cells = cString jobId) :
    ShareEchoed env sys res id jobId ↔ (sys.Writes env → Echoable env sys res id jobId) := by
  have twice : cString sys.app.pool.poolMinerId = cString id := by
    rw [storedId]
    exact List.takeWhile_idem
  refine lineWritten_iff (getLast?_submitLine _ res _)
    (fun tls => handsOver_doSendResult tls res hasJob) (fun plain => ?_)
    fun sent sentAs => echoes_sent_iff sentAs twice storedJobId
  unfold doSendResultThrough
  rw [ensures_bind, ensures_get, if_neg (not_not.mpr hasJob),
    ensures_bind_of_run (run_prepareResult res), ensures_bind, ensures_get]
  exact ensures_sendLine_iff plain (submitLine_ne_nil _ res _) (sys.shareMade res) _

/-- In every reachable state, a share of a received job is submitted under the ids that
the server sent, or not at all, exactly if these can be put into the line as they
are and the line fits. -/
theorem share_echoed_iff (env : Env Engine) (sys : Sys Engine)
    (reachable : (machine env).Reachable sys) (hasJob : sys.app.pool.state = .hasJob)
    (id jobId : Bytes) (job : MinerJob) (issued : latestId sys.app.log = some id)
    (received : (some jobId, job) ∈ receivedJobs sys.app.log) (res : MinerResult)
    (found : res.id = job.id) (input : Input) :
    ShareEchoed env (sys.answering input) res id jobId ↔
      ((sys.answering input).Writes env → Echoable env (sys.answering input) res id jobId) := by
  rcases reachable_sourced reachable with untouched | sourced
  · rw [untouched.idle] at hasJob
    cases hasJob
  · obtain ⟨other, same, field⟩ := sourced.jobIds _ received
    cases same
    rw [← found] at field
    exact shareEchoed_iff env (sys.answering input) hasJob (sourced.minerId id issued) field

/-! ## Sample runs -/

/-- A share of the sample job. -/
def echoedShare : MinerResult :=
  { sampleShare with id := Buffer.write default 0 (ascii "1" ++ [0]) }

theorem share_echoed_iff_sample :
    ∃ sys job input, (machine .welcoming).Reachable sys ∧
      (some (ascii "1"), job) ∈ receivedJobs sys.app.log ∧ echoedShare.id = job.id ∧
      (ShareEchoed .welcoming (sys.answering input) echoedShare (ascii "m") (ascii "1") ↔
        ((sys.answering input).Writes .welcoming →
          Echoable .welcoming (sys.answering input) echoedShare (ascii "m") (ascii "1"))) := by
  have executed := Machine.execute_reachable Sys.start_initial (step .welcoming) welcomedSession
    (fun sys => sys.app.pool.state = .hasJob ∧ latestId sys.app.log = some (ascii "m") ∧
      (receivedJobs sys.app.log).any (fun entry =>
        entry.1 = some (ascii "1") ∧ echoedShare.id = entry.2.id) = true) (by decide +kernel)
  generalize Machine.execute _ _ _ = state at executed
  obtain ⟨reachable, hasJob, issued, known⟩ := executed
  obtain ⟨⟨jobId, job⟩, received, matching⟩ := List.any_eq_true.mp known
  obtain ⟨rfl, found⟩ := of_decide_eq_true matching
  exact ⟨state, job, (Event.foundResult echoedShare).at 20040, reachable, received, found,
    share_echoed_iff .welcoming state reachable hasJob (ascii "m") (ascii "1") job issued received
      echoedShare found _⟩

/-- The login call is answered with the id `a"b`. -/
def quotedId : Bytes :=
  [97, 34, 98]

def quotingDoc : Value :=
  .object
    [(ascii "id", .number (some 0)),
      (ascii "result",
        .object [(ascii "id", .string quotedId), (ascii "job", JobMessage.sample.params)])]

def quotingText : Bytes :=
  ascii "\x7b\"id\":0,\"result\":\x7b\"id\":\"a\\\"b\",\"job\":" ++
    JobMessage.sample.paramsText ++ ascii "\x7d\x7d"

def Env.quoting : Env Unit :=
  .plain (.ofRun (.ofTexts [(quotingText, quotingDoc)]) ethashEpoch)

def quotingSession : List Input :=
  loginSession ++ [(Event.read (quotingText ++ [10])).at 20030]

/-- The quote is put into the line without its escape, and the text behind it is no
longer JSON. -/
theorem quoted_id_not_echoed :
    ∃ sys, (machine .quoting).Reachable sys ∧ sys.app.pool.state = .hasJob ∧
      latestId sys.app.log = some quotedId ∧
      readDocument (submitLine sys.app.pool.poolMinerId echoedShare 1) = none ∧
      ¬ ShareEchoed .quoting (sys.answering ((Event.foundResult echoedShare).at 20040)) echoedShare
        quotedId (ascii "1") := by
  have executed := Machine.execute_reachable Sys.start_initial (step .quoting) quotingSession
    (fun sys => (sys.app.pool.state = .hasJob ∧ latestId sys.app.log = some quotedId ∧
      sys.app.pool.poolMinerId = quotedId) ∧ sys.freeSlot = some firstSlot ∧
        (sys.net.sendBufs firstSlot).rSend = false) (by decide +kernel)
  generalize Machine.execute _ _ _ = state at executed
  obtain ⟨reachable, ⟨hasJob, issued, stored⟩, free, idle⟩ := executed
  refine ⟨state, reachable, hasJob, issued, ?_, fun echoed => ?_⟩
  · rw [stored]
    have unread : (readDocument (submitLine quotedId echoedShare 1)).isNone = true := by
      decide +kernel
    exact Option.isNone_iff_eq_none.mp unread
  · have plain : cString quotedId = quotedId := by decide
    have field : cString echoedShare.id.cells = cString (ascii "1") := by decide
    have echoable := (shareEchoed_iff .quoting (state.answering _) hasJob
      (stored.trans plain.symm) field).mp echoed (.inr ⟨firstSlot, free, idle⟩)
    exact absurd echoable.1 (by decide)

end EpicMiner.EventLoop
