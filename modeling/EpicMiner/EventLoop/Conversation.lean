import EpicMiner.Library.Lines
import EpicMiner.EventLoop.LoginText
import EpicMiner.EventLoop.Traffic

/-!
Owns the conversation on plain connections. What libuv takes to write, in whatever run, is cut
by a server at the newlines into the messages that the client means: on each connection one
login call first, then a submit call for each share, in the order in which they were made.
-/

namespace EpicMiner.EventLoop

open EpicMiner.Library
open EpicMiner.Library.Program
open EpicMiner.Data
open EpicMiner.Data.JsonText

variable {Engine : Type}

/-! ## What the client means -/

/-- A call of the client. A submit call names the miner by the latest id that the server
gave, if it gave any. -/
inductive Utterance where
  | login (callId : UInt32)
  | submit (minerId : Option Bytes) (callId : UInt32) (res : MinerResult)

/-- The calls made, oldest first. -/
def utterances : List Effect → List Utterance
  | [] => []
  | .login callId :: older => utterances older ++ [.login callId]
  | .submit callId res :: older => utterances older ++ [.submit (latestId older) callId res]
  | _ :: older => utterances older

/-- What libuv answered to the writes, oldest first. -/
def answers : List Effect → List Bool
  | [] => []
  | .uvWrite _ _ _ accepted :: older => answers older ++ [accepted]
  | _ :: older => answers older

/-- The calls whose write libuv accepted. There is one write for each call. -/
def heard (log : List Effect) : List Utterance :=
  (((utterances log).zip (answers log)).filter Prod.snd).map Prod.fst

/-- The message that is meant by a call. -/
def Utterance.message (config : Config) : Utterance → Value
  | .login callId =>
      .object
        [(ascii "method", .string (ascii "login")),
          (ascii "params",
            .object (loginParamsOf config.username config.password config.rigid)),
          (ascii "id", .number (some callId))]
  | .submit minerId callId res =>
      .object
        [(ascii "method", .string (ascii "submit")),
          (ascii "params",
            .object (paramsOf (minerId.getD []) (cString res.id.cells) (hexText (le32 res.nonce))
              (hexText res.resHash.cells))),
          (ascii "id", .number (some callId))]

/-- The latest connection has begun with its login call, and is not closed. -/
def introduced : List Effect → Bool
  | [] => false
  | .login _ :: _ => true
  | .closed :: _ => false
  | _ :: older => introduced older

/-- There is one login call on each connection, before any submit call. -/
def Polite : List Effect → Prop
  | [] => True
  | .login _ :: older => introduced older = false ∧ Polite older
  | .submit _ _ :: older => introduced older = true ∧ Polite older
  | _ :: older => Polite older

/-- A line that a call is made with. Before the first login answer the member holds anything. -/
inductive Spoken (env : Env Engine) : Utterance → Bytes → Prop
  | login (callId : UInt32) : Spoken env (.login callId) (loginLine env callId)
  | submit (id : Bytes) (callId : UInt32) (res : MinerResult) :
      Spoken env (.submit (some id) callId res) (submitLine (cString id) res callId)
  | nameless (poolMinerId : Bytes) (callId : UInt32) (res : MinerResult) :
      Spoken env (.submit none callId res) (submitLine poolMinerId res callId)

/-- What is sent of a line that is printed to a slot. -/
def sentText (line : Bytes) : Bytes :=
  (snprintf 2048 line).take line.length

/-- Entries that make a call, write something or end a connection. -/
def Effect.isSpeech : Effect → Bool
  | .login _ => true
  | .submit _ _ => true
  | .uvWrite _ _ _ _ => true
  | .closed => true
  | _ => false

/-! ## Silence -/

/-- Nothing is said, and the connection stays as it is. Faults end a run, so any will do. -/
def silence (Engine : Type) : Behaviour Fault (Sys Engine) where
  Change := fun sys next =>
    (∃ newer, next.app.log = newer ++ sys.app.log ∧
      ∀ effect ∈ newer, effect.isSpeech = false) ∧
      next.uv.connected = sys.uv.connected
  Fault := fun _ _ => True
  refl := fun _ => ⟨⟨[], rfl, nofun⟩, rfl⟩
  trans := by
    rintro first second third ⟨⟨older, olderLog, olderSilent⟩, before⟩
      ⟨⟨newer, newerLog, newerSilent⟩, after⟩
    refine ⟨⟨newer ++ older, by rw [newerLog, olderLog, List.append_assoc], ?_⟩,
      after.trans before⟩
    intro effect member
    exact (List.mem_append.mp member).elim (newerSilent effect) (olderSilent effect)
  fault_trans := fun _ fault => fault

section Silence

variable {sys next : Sys Engine}

theorem silent_of_frame (log : next.app.log = sys.app.log)
    (connected : next.uv.connected = sys.uv.connected) : (silence Engine).Change sys next :=
  ⟨⟨[], log, nofun⟩, connected⟩

theorem silent_logged (sys : Sys Engine) (effect : Effect) (silent : effect.isSpeech = false) :
    (silence Engine).Change sys (sys.logged effect) :=
  ⟨⟨[effect], rfl, by simp [silent]⟩, rfl⟩

theorem setNet_silent (update : NetInterface → NetInterface) :
    (silence Engine).Within (setNet update) :=
  fun _ => ⟨silent_of_frame rfl rfl, trivial⟩

theorem Effect.isSpeech_of_handling {effect : Effect} (handling : effect.isHandling = true) :
    effect.isSpeech = false := by
  cases effect <;> first | rfl | cases handling

theorem netDoShutdown_silent : (silence Engine).Within netDoShutdown := by
  intro sys
  have called := silent_logged sys .shutdownCalled rfl
  refine ensures_netDoShutdown.mpr ⟨fun _ => ⟨called, trivial⟩, fun _ _ => ⟨?_, trivial⟩,
    fun _ _ => trivial⟩
  refine (silence Engine).trans called ?_
  exact ⟨⟨[_], rfl, by simp [Effect.isSpeech]⟩, rfl⟩

variable {env : Env Engine} (plain : env.useTls = false)

include plain

theorem doShutdown_silent : (silence Engine).Within (doShutdown env) := by
  unfold doShutdown
  rw [plain]
  exact netDoShutdown_silent

theorem netOnError_silent (err : Bytes) :
    (silence Engine).Within (netOnError env (doShutdown env) err) := by
  intro sys
  apply Behaviour.Ends.step rfl (silent_logged sys (.logError _) rfl)
  apply (doShutdown_silent plain _).bind
  intro _ next _
  exact ⟨⟨⟨[.shared .storeNonce], rfl, by simp [Effect.isSpeech]⟩, rfl⟩, trivial⟩

/-! ### Receiving -/

theorem netOnDataRecv_silent (data : Bytes) : (silence Engine).Within (netOnDataRecv env data) := by
  intro sys
  unfold netOnDataRecv
  split
  · exact Behaviour.Ends.pure trivial
  dsimp only
  split
  · rename_i members _
    have handled : (silence Engine).Ends
        (liftApp (processJsonDoc env.config (.object members))) sys fun _ _ => True := by
      apply Ends.document fun _ _ => trivial
      intro app handled
      obtain ⟨newer, log, handlings⟩ := handled.log
      refine ⟨⟨newer ++ [.document (.object members)], ?_, ?_⟩, rfl⟩
      · rw [log, List.append_assoc]
        rfl
      · intro effect member
        rcases List.mem_append.mp member with later | document
        · exact Effect.isSpeech_of_handling (handlings effect later)
        · rw [List.mem_singleton.mp document]
          rfl
    apply handled.bind
    intro accepted next _
    exact Behaviour.Ends.ite (fun _ => Behaviour.Ends.pure trivial)
      fun _ => Behaviour.Ends.pure trivial
  · apply (netOnError_silent plain _ sys).bind
    exact fun _ _ _ => Behaviour.Ends.pure trivial

theorem onSocketReadSt_silent (chunk : Bytes) :
    (silence Engine).Within (onSocketReadSt env chunk) := by
  intro sys
  have reads : (silence Engine).Within (onSocketRead env) := by
    intro sys
    apply Behaviour.Ends.get_bind
    rw [plain]
    have loop : ∀ (buffer : Buffer 4096) (recvPos : Nat), (silence Engine).Ends
        (consumeLoop (netOnDataRecv env) buffer recvPos) sys fun _ _ => True :=
      fun buffer recvPos => consumeLoop_ends (fun _ _ _ => trivial)
        (fun data state _ => netOnDataRecv_silent plain data state) buffer recvPos sys trivial
    apply (loop sys.net.recvBuf sys.net.recvPos).bind
    rintro ⟨good, recvBuf, recvPos⟩ next -
    exact (setNet_silent _ next).bind fun _ _ _ => Behaviour.Ends.pure trivial
  apply (setNet_silent _ sys).bind
  intro _ stored _
  apply (reads stored).bind
  intro good next _
  exact Behaviour.Ends.ite (fun _ => Behaviour.Ends.pure trivial)
    fun _ => doShutdown_silent plain next

theorem onSocketError_silent (error : Int) :
    (silence Engine).Within (onSocketError env error) := by
  intro sys
  apply Behaviour.Ends.get_bind
  refine Behaviour.Ends.ite (fun _ => doShutdown_silent plain sys) fun _ => ?_
  apply (netOnError_silent plain _ sys).bind
  exact fun _ next _ => doShutdown_silent plain next

theorem onSocketWriteSt_silent (idx : Fin 4) (status : Int) :
    (silence Engine).Within (onSocketWriteSt env idx status) := by
  intro sys
  have ended : (silence Engine).Change sys (sys.writeEnded idx) := silent_of_frame rfl rfl
  apply Behaviour.Ends.step rfl ended
  refine Behaviour.Ends.ite (fun _ => ?_) fun _ => onSocketError_silent plain status _
  apply Behaviour.Ends.get_bind
  refine Behaviour.Ends.ite (fun _ => (ensures_throw ..).mpr trivial) fun _ => ?_
  exact ⟨silent_of_frame rfl rfl, trivial⟩

/-! ### Connecting -/

theorem onHeartbeat_silent : (silence Engine).Within (onHeartbeat env) := by
  intro sys
  have dials : (silence Engine).Within dialWhenIdle := by
    intro sys
    apply Behaviour.Ends.get_bind
    refine Behaviour.Ends.ite (fun _ => ?_) fun _ => Behaviour.Ends.pure trivial
    refine ensures_poolDoConnect.mpr ⟨fun _ => trivial, fun _ => ⟨?_, trivial⟩⟩
    exact ⟨⟨[_], rfl, by simp [Effect.isSpeech]⟩, rfl⟩
  have times : (silence Engine).Within (checkCallTimeouts env) := by
    intro sys
    apply Behaviour.Ends.get_bind
    exact Behaviour.Ends.ite (fun _ => netOnError_silent plain _ sys)
      fun _ => Behaviour.Ends.pure trivial
  have rests : ∀ state : Sys Engine, (silence Engine).Ends
      (if sys.app.pool.state ≠ .connected ∧ sys.app.pool.state ≠ .connecting then dialWhenIdle
        else return) state fun _ _ => True :=
    fun state => Behaviour.Ends.ite (fun _ => dials state) fun _ => Behaviour.Ends.pure trivial
  apply Behaviour.Ends.get_bind
  refine Behaviour.Ends.ite (fun _ => ?_) fun _ => rests sys
  exact (times sys).bind fun _ next _ => rests next

/-- A socket is opened where none is left, so no stream is. -/
theorem onDnsResolvedSt_silent (status : Int) (res : List AddrInfo) (rand : Nat)
    (sys : Sys Engine) (attached : Attached env sys) :
    (silence Engine).Ends (onDnsResolvedSt env status res rand) sys fun _ _ => True := by
  have frees : ∀ {first : Loop Engine Unit} {state : Sys Engine},
      (silence Engine).Ends first state (fun _ _ => True) →
      (silence Engine).Ends
        (first >>= fun _ => setNet fun net => { net with rResolv := false }) state
        fun _ _ => True := by
    intro first state ends
    exact ends.bind fun _ next _ => setNet_silent _ next
  have answered : (silence Engine).Change sys { sys with uv := { sys.uv with dns := false } } :=
    silent_of_frame rfl rfl
  apply Behaviour.Ends.step rfl answered
  refine Behaviour.Ends.ite (fun _ => frees ?_) fun _ => frees (netOnError_silent plain _ _)
  unfold onDnsResolved
  split
  · exact netOnError_silent plain _ _
  · refine ensures_openSocket.mpr ⟨fun _ => trivial, fun _ _ => trivial, fun free _ => ?_⟩
    have apart : sys.uv.connected = false := by
      by_contra connected
      have taken := attached.socket (by simpa using connected)
      have none : sys.net.hSock = false := free
      rw [none] at taken
      cases taken
    exact ⟨silent_of_frame rfl apart.symm, trivial⟩

end Silence

/-! ## Speech -/

/-- What a step says: nothing, the end of the connection, or one call, which a single write
is made for. -/
inductive Speech (env : Env Engine) (sys next : Sys Engine) : Prop
  | silent : (silence Engine).Change sys next → Speech env sys next
  | closed (newer : List Effect) : next.app.log = .closed :: newer ++ sys.app.log →
      (∀ effect ∈ newer, effect.isSpeech = false) → next.uv.connected = false →
      Speech env sys next
  | login (slot len : Nat) (accepted : Bool) (callId : UInt32) : sys.uv.connected = false →
      next.app.log = .uvWrite slot (sentText (loginLine env callId)) len accepted ::
        .login callId :: sys.app.log →
      next.uv.connected = true → Speech env sys next
  | submit (slot len : Nat) (accepted : Bool) (callId : UInt32) (res : MinerResult) :
      sys.uv.connected = true →
      next.app.log =
        .uvWrite slot (sentText (submitLine sys.app.pool.poolMinerId res callId)) len accepted ::
          .submit callId res :: .share res :: sys.app.log →
      next.uv.connected = true → Speech env sys next

section Speech

variable {env : Env Engine} {sys next : Sys Engine}

/-- A line is handed over in one write, or there is no slot for it and the run ends. -/
theorem ensures_sendLine_plain (plain : env.useTls = false) {line : Bytes} (nonempty : line ≠ [])
    (sys : Sys Engine) :
    Ensures (sendLine env line) sys
      (fun _ next => next.uv.connected = sys.uv.connected ∧
        ∃ slot accepted,
          next.app.log = .uvWrite slot (sentText line) line.length accepted :: sys.app.log)
      fun _ => True := by
  refine (ensures_sendLine plain nonempty).mpr
    ⟨fun _ => trivial, fun idx _ => ⟨fun _ => trivial, fun _ => ?_⟩⟩
  exact ⟨rfl, idx, sys.uv.acceptsWrite idx, log_lineSent sys idx line⟩

theorem doSendResult_speech (plain : env.useTls = false) (attached : Attached env sys)
    (res : MinerResult) :
    Ensures (doSendResult env res) sys (fun _ next => Speech env sys next) fun _ => True := by
  unfold doSendResult doSendResultThrough
  rw [ensures_bind, ensures_get, ensures_ite]
  refine ⟨fun _ => .silent ((silence Engine).refl sys), fun hasJob => ?_⟩
  have connected := (attached.coherent (not_not.mp hasJob)).1
  rw [ensures_bind_of_run (run_prepareResult res), ensures_bind, ensures_get]
  apply (ensures_sendLine_plain plain (submitLine_ne_nil _ res _) (sys.shareMade res)).mono
  rintro _ next ⟨same, slot, accepted, log⟩
  exact .submit slot _ accepted _ res connected log (same.trans connected)

theorem onConnnectSt_speech (plain : env.useTls = false) (attached : Attached env sys)
    (due : sys.uv.conn = true) (status : Int) :
    Ensures (onConnnectSt env status) sys (fun _ next => Speech env sys next) fun _ => True := by
  have apart := (attached.connecting due).1
  unfold onConnnectSt
  rw [ensures_bind_of_run rfl, ensures_ite]
  constructor
  · rintro rfl
    unfold onConnect
    simp only [plain, Bool.false_eq_true, if_false]
    rw [ensures_bind, ensures_bind]
    unfold netOnConnect
    rw [if_neg (by simp), ensures_bind_of_run rfl]
    unfold doLoginCall doLoginCallThrough
    rw [ensures_bind_of_run rfl]
    apply (ensures_sendLine_plain plain (loginLine_ne_nil env _) _).mono
    rintro _ next ⟨connected, slot, accepted, log⟩
    exact .login slot _ accepted _ apart log connected
  · intro failed
    have answered : (silence Engine).Change sys
        { sys with uv := { sys.uv with conn := false, connected := decide (status = 0) } } := by
      refine silent_of_frame rfl ?_
      simp [failed, apart]
    have ends : (silence Engine).Ends (do
        netOnError env (doShutdown env) (env.uvStrerror status)
        setNet fun net => { net with rConn := false })
        { sys with uv := { sys.uv with conn := false, connected := decide (status = 0) } }
        fun _ _ => True :=
      (netOnError_silent plain _ _).bind fun _ next _ => setNet_silent _ next
    exact (ends.after answered).mono fun _ _ silent => .silent silent.1

theorem callback_speech (plain : env.useTls = false) (attached : Attached env sys)
    (event : Event) (enabled : Enabled sys event) :
    Ensures (callback env event) sys (fun _ next => Speech env sys next) fun _ => True := by
  have quiet : ∀ {program : Loop Engine Unit},
      (silence Engine).Ends program sys (fun _ _ => True) →
      Ensures program sys (fun _ next => Speech env sys next) fun _ => True :=
    fun ends => Ensures.mono ends fun _ _ silent => .silent silent.1
  cases event with
  | heartbeat => exact quiet (onHeartbeat_silent plain sys)
  | dnsResolved status res rand =>
      exact quiet (onDnsResolvedSt_silent plain status res rand sys attached)
  | connected status => exact onConnnectSt_speech plain attached enabled status
  | read chunk => exact quiet (onSocketReadSt_silent plain chunk sys)
  | readError error => exact quiet (onSocketError_silent plain error sys)
  | written idx status => exact quiet (onSocketWriteSt_silent plain idx status sys)
  | shutDown => exact ensures_onShutdownSt.mpr (.silent (silent_of_frame rfl rfl))
  | closed =>
      refine (ensures_onSocketClosed env).mpr (.closed [_, _] rfl ?_ rfl)
      simp [Effect.isSpeech]
  | foundResult res => exact doSendResult_speech plain attached res

end Speech

/-! ## Runs -/

/-- A call, the line it was made with, and whether libuv took the write. -/
structure Said (env : Env Engine) where
  call : Utterance
  line : Bytes
  accepted : Bool
  spoken : Spoken env call line

/-- What is said of the log in every state: there is one write for each call, what libuv took
are the lines of their calls, and the calls are polite. -/
structure Conversed (env : Env Engine) (log : List Effect) : Prop where
  lines : ∃ said : List (Said env), utterances log = said.map Said.call ∧
    answers log = said.map Said.accepted ∧
    wire log = ((said.filter Said.accepted).map fun call => sentText call.line).flatten
  polite : Polite log

section Conversed

variable {env : Env Engine} {log newer : List Effect}

theorem read_silent {newer : List Effect} (silent : ∀ effect ∈ newer, effect.isSpeech = false)
    (log : List Effect) :
    utterances (newer ++ log) = utterances log ∧ answers (newer ++ log) = answers log ∧
      wire (newer ++ log) = wire log ∧ introduced (newer ++ log) = introduced log ∧
      (Polite (newer ++ log) ↔ Polite log) := by
  refine ⟨read_append (fun effect older isSilent => ?_) silent,
    read_append (fun effect older isSilent => ?_) silent,
    read_append (fun effect older isSilent => ?_) silent,
    read_append (fun effect older isSilent => ?_) silent,
    iff_of_eq (read_append (fun effect older isSilent => ?_) silent)⟩
  all_goals cases effect <;> first | rfl | cases isSilent

theorem Conversed.silent (conversed : Conversed env log)
    (silent : ∀ effect ∈ newer, effect.isSpeech = false) : Conversed env (newer ++ log) := by
  obtain ⟨said, answered, written, -, polite⟩ := read_silent silent log
  constructor
  · rw [said, answered, written]
    exact conversed.lines
  · exact polite.mpr conversed.polite

/-- One more call, with the write that is made for it. -/
theorem Conversed.said (conversed : Conversed env log) (call : Said env)
    (called : List Effect) (calls : utterances called = utterances log ++ [call.call])
    (answered : answers called = answers log) (written : wire called = wire log)
    (polite : Polite called) (slot len : Nat) :
    Conversed env (.uvWrite slot (sentText call.line) len call.accepted :: called) := by
  obtain ⟨said, earlier, answeredEarlier, writtenEarlier⟩ := conversed.lines
  refine ⟨⟨said ++ [call], ?_, ?_, ?_⟩, polite⟩
  · rw [List.map_append, ← earlier]
    exact calls
  · rw [List.map_append, ← answeredEarlier, ← answered]
    rfl
  · rw [wire, written, writtenEarlier]
    cases taken : call.accepted <;> simp [List.filter_append, taken]

theorem Conversed.login (conversed : Conversed env log) (fresh : introduced log = false)
    (slot len : Nat) (accepted : Bool) (callId : UInt32) :
    Conversed env (.uvWrite slot (sentText (loginLine env callId)) len accepted ::
      .login callId :: log) :=
  conversed.said ⟨_, _, accepted, .login callId⟩ (.login callId :: log) rfl rfl rfl
    ⟨fresh, conversed.polite⟩ slot len

theorem Conversed.submit (conversed : Conversed env log) (known : introduced log = true)
    (slot len : Nat) (accepted : Bool) (callId : UInt32) (res : MinerResult) {poolMinerId : Bytes}
    (named : ∀ id, latestId log = some id → poolMinerId = cString id) :
    Conversed env (.uvWrite slot (sentText (submitLine poolMinerId res callId)) len accepted ::
      .submit callId res :: .share res :: log) := by
  have line : Spoken env (.submit (latestId log) callId res) (submitLine poolMinerId res callId) := by
    cases latest : latestId log with
    | none => exact .nameless poolMinerId callId res
    | some id =>
        rw [named id latest]
        exact .submit id callId res
  exact conversed.said ⟨_, _, accepted, line⟩ (.submit callId res :: .share res :: log) rfl rfl rfl
    ⟨known, conversed.polite⟩ slot len

end Conversed

/-- On plain connections, every state has a polite conversation behind it, and the stream is
connected as long as the latest connection is introduced. -/
theorem reachable_conversed {env : Env Engine} (plain : env.useTls = false) {sys : Sys Engine}
    (reachable : (machine env).Reachable sys) :
    Conversed env sys.app.log ∧ introduced sys.app.log = sys.uv.connected := by
  have initially : ∀ start, (machine env).Initial start →
      Conversed env start.app.log ∧ introduced start.app.log = start.uv.connected := by
    intro start initial
    obtain ⟨-, -, connected, -⟩ := Initial.noCallback initial
    rw [Initial.logEmpty initial, connected]
    exact ⟨⟨⟨[], rfl, rfl, rfl⟩, trivial⟩, rfl⟩
  refine reachable.invariant initially ?_
  · rintro before input after reached ⟨conversed, same⟩ stepped -
    have attached : Attached env before := reachable_attached reached
    obtain ⟨enabled, handled⟩ := step_enabled stepped
    have admitted : Attached env (before.answering input) := { attached with }
    have speech : Speech env (before.answering input) after :=
      (callback_speech plain admitted input.event (Enabled.answering enabled)).of_run
        (run_of_handle handled)
    cases speech with
    | silent silent =>
        obtain ⟨⟨newer, log, quiet⟩, connected⟩ := silent
        rw [log, connected]
        exact ⟨conversed.silent quiet, (read_silent quiet _).2.2.2.1.trans same⟩
    | closed newer log quiet apart =>
        rw [log, apart]
        have still : Conversed env (newer ++ before.app.log) := conversed.silent quiet
        exact ⟨⟨still.lines, still.polite⟩, rfl⟩
    | login slot len accepted callId apart log connected =>
        rw [log, connected]
        exact ⟨conversed.login (same.trans apart) slot len accepted callId, rfl⟩
    | submit slot len accepted callId res known log connected =>
        rw [log, connected]
        have named : ∀ id, latestId before.app.log = some id →
            before.app.pool.poolMinerId = cString id := by
          rcases reachable_sourced reached with untouched | sourced
          · rw [untouched.log]
            exact nofun
          · exact sourced.minerId
        exact ⟨conversed.submit (same.trans known) slot len accepted callId res named,
          same.trans known⟩

/-! ## What a server reads -/

/-- Every text in the call stands for itself in JSON, and its line fits a slot. -/
def Utterance.Speakable (env : Env Engine) : Utterance → Prop
  | .login callId => env.config.PlainCredentials ∧ (loginLine env callId).length < 2048
  | .submit (some id) callId res =>
      Plain id ∧ Plain (cString res.id.cells) ∧ (submitLine id res callId).length < 2048
  | .submit none _ _ => False

/-- The line is one text and a newline, and is read as the message. -/
structure ReadAs (message : Value) (line : Bytes) : Prop where
  text : ∃ text, line = text ++ [10] ∧ 10 ∉ text
  sent : sentText line = line
  read : readDocument line = some message

section Reading

variable {env : Env Engine}

theorem decimal_newline_not_mem (value : UInt32) : 10 ∉ decimal value :=
  fun member => absurd ((decimalDigits_isDecimal value.toNat).digit 10 member) (by decide)

theorem ReadAs.login (callId : UInt32) (credentials : env.config.PlainCredentials)
    (fits : (loginLine env callId).length < 2048) :
    ReadAs (Utterance.message env.config (.login callId)) (loginLine env callId) := by
  obtain ⟨username, password, rigid⟩ := credentials
  constructor
  case sent => exact (take_snprintf_eq_iff (by decide) (getLast?_loginLine env callId)).mpr fits
  case read =>
    rw [loginLine_eq, username.cString_eq, password.cString_eq, rigid.cString_eq]
    exact readDocument_loginText username password rigid callId
  case text =>
    have ended : ascii "\x7d\n" = ascii "\x7d" ++ [10] := by decide
    rw [loginLine, username.cString_eq, password.cString_eq, rigid.cString_eq, ended,
      ← List.append_assoc]
    refine ⟨_, rfl, ?_⟩
    simp only [List.mem_append, not_or]
    exact ⟨⟨⟨⟨⟨⟨⟨⟨by decide, username.newline_not_mem⟩, by decide⟩, password.newline_not_mem⟩,
      by decide⟩, rigid.newline_not_mem⟩, by decide⟩, decimal_newline_not_mem callId⟩, by decide⟩

theorem readDocument_submitLine {id : Bytes} (plainId : Plain id) {res : MinerResult}
    (plainJobId : Plain (cString res.id.cells)) (callId : UInt32) :
    readDocument (submitLine id res callId) =
      some (.object
        [(ascii "method", .string (ascii "submit")),
          (ascii "params",
            .object (paramsOf id (cString res.id.cells) (hexText (le32 res.nonce))
              (hexText res.resHash.cells))),
          (ascii "id", .number (some callId))]) := by
  rw [submitLine_eq, plainId.cString_eq]
  exact readDocument_lineText plainId plainJobId (hexText_plain _) (hexText_plain _) callId

theorem ReadAs.submit {id : Bytes} (plainId : Plain id) {res : MinerResult}
    (plainJobId : Plain (cString res.id.cells)) (callId : UInt32)
    (fits : (submitLine id res callId).length < 2048) :
    ReadAs (Utterance.message env.config (.submit (some id) callId res))
      (submitLine (cString id) res callId) := by
  rw [plainId.cString_eq]
  constructor
  case sent => exact (take_snprintf_eq_iff (by decide) (getLast?_submitLine id res callId)).mpr fits
  case read => exact readDocument_submitLine plainId plainJobId callId
  case text =>
    have ended : ascii "\x7d\n" = ascii "\x7d" ++ [10] := by decide
    rw [submitLine, plainId.cString_eq, cString_bin2hex, cString_bin2hex, ended,
      ← List.append_assoc]
    refine ⟨_, rfl, ?_⟩
    simp only [List.mem_append, not_or]
    exact ⟨⟨⟨⟨⟨⟨⟨⟨⟨⟨by decide, plainId.newline_not_mem⟩, by decide⟩, plainJobId.newline_not_mem⟩,
      by decide⟩, (hexText_plain _).newline_not_mem⟩, by decide⟩,
      (hexText_plain _).newline_not_mem⟩, by decide⟩, decimal_newline_not_mem callId⟩, by decide⟩

theorem Spoken.readAs {utterance : Utterance} {line : Bytes} (spoken : Spoken env utterance line)
    (speakable : utterance.Speakable env) : ReadAs (utterance.message env.config) line := by
  cases spoken with
  | login callId => exact .login callId speakable.1 speakable.2
  | submit id callId res => exact .submit speakable.1 speakable.2.1 callId speakable.2.2
  | nameless poolMinerId callId res => exact speakable.elim

/-- The induction is on the calls; each line is cut off at its own newline. -/
theorem texts_of_said (said : List (Said env))
    (speakable : ∀ call ∈ said, call.call.Speakable env) :
    ∃ texts : List Bytes, (∀ text ∈ texts, 10 ∉ text) ∧
      (said.map fun call => sentText call.line).flatten = Lines.joined 10 texts ∧
      texts.map (fun text => readDocument (text ++ [10])) =
        (said.map Said.call).map fun utterance => some (utterance.message env.config) := by
  induction said with
  | nil => exact ⟨[], nofun, rfl, rfl⟩
  | cons call said inductionHypothesis =>
      obtain ⟨texts, clean, joined, read⟩ :=
        inductionHypothesis fun other member => speakable other (.tail _ member)
      obtain ⟨⟨text, ended, whole⟩, sent, message⟩ :=
        call.spoken.readAs (speakable call (.head _))
      refine ⟨text :: texts, ?_, ?_, ?_⟩
      · intro other member
        rcases List.mem_cons.mp member with rfl | later
        · exact whole
        · exact clean other later
      · rw [List.map_cons, List.flatten_cons, joined, sent, ended, Lines.joined,
          List.append_assoc]
        rfl
      · rw [List.map_cons, List.map_cons, List.map_cons, read, ← ended, message]

end Reading

/-- On plain connections, whatever happens: there is one write for each call; a server that cuts
what libuv took at the newlines reads the messages of those calls, one by one and nothing else,
as long as these can be said at all; and each connection begins with its only login call. -/
theorem plain_conversation (env : Env Engine) (plain : env.useTls = false) {sys : Sys Engine}
    (reachable : (machine env).Reachable sys)
    (speakable : ∀ utterance ∈ heard sys.app.log, utterance.Speakable env) :
    (answers sys.app.log).length = (utterances sys.app.log).length ∧
      (Lines.cut 10 (wire sys.app.log)).map (fun text => readDocument (text ++ [10])) =
        (heard sys.app.log).map (fun utterance => some (utterance.message env.config)) ∧
      Polite sys.app.log := by
  have conversed := (reachable_conversed plain reachable).1
  obtain ⟨said, calls, answered, written⟩ := conversed.lines
  have taken : heard sys.app.log = (said.filter Said.accepted).map Said.call := by
    rw [heard, calls, answered]
    simp [List.zip_map', List.filter_map, Function.comp_def]
  refine ⟨by rw [calls, answered, List.length_map, List.length_map], ?_, conversed.polite⟩
  obtain ⟨texts, clean, joined, read⟩ := texts_of_said (said.filter Said.accepted)
    fun call member => speakable call.call (by rw [taken]; exact List.mem_map_of_mem member)
  rw [written, joined, Lines.cut_joined clean, read, taken]

/-! ## A first share -/

instance (config : Config) : Decidable config.PlainCredentials :=
  decidable_of_iff (Plain config.username ∧ Plain config.password ∧ Plain config.rigid)
    ⟨fun ⟨username, password, rigid⟩ => ⟨username, password, rigid⟩,
      fun ⟨username, password, rigid⟩ => ⟨username, password, rigid⟩⟩

instance (env : Env Engine) (utterance : Utterance) : Decidable (utterance.Speakable env) :=
  match utterance with
  | .login _ => inferInstanceAs (Decidable (_ ∧ _))
  | .submit (some _) _ _ => inferInstanceAs (Decidable (_ ∧ _ ∧ _))
  | .submit none _ _ => .isFalse id

/-- The client logs in, is given a job, and submits two shares of it. Libuv takes the first. -/
def submittingSession : List Input :=
  welcomedSession ++ [(Event.foundResult echoedShare).at 20040,
    { (Event.foundResult echoedShare).at 20050 with acceptsWrite := fun _ => false }]

theorem plain_conversation_submitting :
    ∃ sys, (machine .welcoming).Reachable sys ∧
      ((utterances sys.app.log).length = 3 ∧ (heard sys.app.log).length = 2) ∧
      (answers sys.app.log).length = (utterances sys.app.log).length ∧
      (Lines.cut 10 (wire sys.app.log)).map (fun text => readDocument (text ++ [10])) =
        (heard sys.app.log).map
          (fun utterance => some (utterance.message Env.welcoming.config)) ∧
      Polite sys.app.log := by
  have executed := Machine.execute_reachable Sys.start_initial (step .welcoming) submittingSession
    (fun sys => ((utterances sys.app.log).length = 3 ∧ (heard sys.app.log).length = 2) ∧
      ∀ utterance ∈ heard sys.app.log, utterance.Speakable Env.welcoming) (by decide +kernel)
  generalize Machine.execute _ _ _ = state at executed
  obtain ⟨reachable, calls, speakable⟩ := executed
  exact ⟨state, reachable, calls, plain_conversation .welcoming rfl reachable speakable⟩

end EpicMiner.EventLoop
