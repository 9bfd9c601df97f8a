import EpicMiner.EventLoop.Callbacks
import EpicMiner.EventLoop.Reception

/-!
Owns what one turn of the event loop does: the behaviour of every callback from
the behaviour of its elementary updates, and the facts about stream, socket and
shutdown that hold between callbacks.
-/

namespace EpicMiner.EventLoop

open EpicMiner.Library
open EpicMiner.Library.Program
open EpicMiner.Data

variable {Engine : Type}

/-! ## Between callbacks -/

/-- How stream, socket, shutdown and pool state hang together between two
callbacks. -/
structure Attached (env : Env Engine) (sys : Sys Engine) : Prop where
  coherent : Coherent env sys
  connecting : sys.uv.conn = true → sys.uv.connected = false ∧ sys.net.hSock = true
  reading : sys.uv.reading = true → sys.uv.connected = true
  socket : sys.uv.connected = true → sys.net.hSock = true
  shutting : sys.uv.shutdown = true → sys.uv.connected = true ∧ sys.net.shuttingDown = true
  closing : sys.uv.closing = true → sys.uv.connected = true ∧ sys.net.shuttingDown = true ∧
    sys.uv.shutdown = false ∧ sys.uv.reading = false

namespace Attached

variable {env : Env Engine} {sys next : Sys Engine}

theorem steady (attached : Attached env sys) (change : Steady sys next)
    (coherent : Coherent env next) : Attached env next where
  coherent := coherent
  connecting := by
    rw [change.conn, change.connected, change.hSock]
    exact attached.connecting
  reading := by
    rw [change.reading, change.connected]
    exact attached.reading
  socket := by
    rw [change.connected, change.hSock]
    exact attached.socket
  shutting := by
    intro pending
    rw [change.connected]
    rcases change.shutdown with ⟨down, -, same⟩ | ⟨-, -, started, -, asked⟩
    · rw [down]
      exact attached.shutting (same ▸ pending)
    · refine ⟨?_, started⟩
      exact (asked pending).elim (fun earlier => (attached.shutting earlier).1) id
  closing := by
    intro closing
    rw [change.closing] at closing
    obtain ⟨connected, down, pending, reading⟩ := attached.closing closing
    rw [change.connected, change.reading]
    rcases change.shutdown with ⟨same, -, sameRequest⟩ | ⟨idle, -⟩
    · exact ⟨connected, same.trans down, sameRequest.trans pending, reading⟩
    · rw [down] at idle
      cases idle

theorem along (attached : Attached env sys) (change : Along sys next) : Attached env next :=
  attached.steady change.steady (change.coherent attached.coherent)

theorem detached (attached : Attached env sys) (apart : sys.uv.connected = false) :
    sys.app.pool.state ≠ .hasJob ∧ sys.uv.reading = false ∧ sys.uv.shutdown = false ∧
      sys.uv.closing = false := by
  have never : ∀ {flag : Prop}, (flag → sys.uv.connected = true) → ¬ flag := by
    intro flag implies holds
    rw [apart] at implies
    cases implies holds
  refine ⟨never fun has => (attached.coherent has).1, ?_, ?_, ?_⟩
  · simpa using never attached.reading
  · simpa using never fun pending => (attached.shutting pending).1
  · simpa using never fun closing => (attached.closing closing).1

end Attached

/-! ## Elementary updates of the callbacks -/

def App.disconnected (app : App) : App :=
  { app with
    pool := { app.pool with state := .idle, myJob := app.pool.myJob.reset }
    executor :=
      if app.currentType ≠ .idle then
        { poolCtr := .zero, published := app.executor.published.publish .idle }
      else app.executor
    log := .shared .publishIdle :: .shared .storeNonce :: app.log }

@[simp] theorem App.currentType_disconnected (app : App) :
    app.disconnected.currentType = .idle := by
  by_cases idle : app.currentType = .idle
  · have same : app.disconnected.executor = app.executor := by simp [disconnected, idle]
    rw [currentType, same]
    exact idle
  · have pushed : app.disconnected.executor.published = app.executor.published.publish .idle := by
      simp [disconnected, idle]
    rw [currentType, pushed, PublishedJobs.currentJob_publish]
    rfl

namespace Sys

def dialled (sys : Sys Engine) : Sys Engine :=
  { sys with
    app := (sys.app.setPool fun pool =>
      { pool with
        state := .connecting
        calls := pool.calls.flushCallMap
        lastConnectAttempt := sys.app.now }).record (.dial (!sys.net.hSock))
    net := { sys.net with rResolv := true }
    uv := { sys.uv with dns := sys.uv.acceptsResolve } }

def opened (sys : Sys Engine) : Sys Engine :=
  { sys with
    net := { sys.net with hSock := true, rConn := true }
    uv := { sys.uv with conn := sys.uv.acceptsConnect, connected := false } }

/-- libuv runs the callback of a write. -/
def writeEnded (idx : Fin 4) (sys : Sys Engine) : Sys Engine :=
  { sys with uv := { sys.uv with writes := Function.update sys.uv.writes idx false } }

def shutdownEnded (sys : Sys Engine) : Sys Engine :=
  { sys with
    net := { sys.net with rShutdown := false }
    uv := { sys.uv with shutdown := false, closing := true, reading := false } }

def socketClosed (env : Env Engine) (sys : Sys Engine) : Sys Engine where
  app := sys.app.disconnected.record .closed
  net :=
    { sys.net with
      hSock := false
      recvPos := 0
      sendBufs := fun idx => { sys.net.sendBufs idx with active := false }
      shuttingDown := false }
  tls :=
    if env.useTls then { sys.tls with ssl := false, bio := false, ptPos := 0 } else sys.tls
  uv := { sys.uv with closing := false, connected := false }

end Sys

section Specs

variable {sys : Sys Engine} {post : Unit → Sys Engine → Prop} {fault : Fault → Prop}

theorem ensures_poolDoConnect :
    Ensures poolDoConnect sys post fault ↔
      (sys.net.rResolv = true → fault (.assertion .resolvIdle)) ∧
      (sys.net.rResolv = false → post () sys.dialled) := by
  simp only [poolDoConnect, netDoConnect, liftApp, record, emit, setNet, setUv, ensures_bind,
    ensures_zoom, ensures_get, ensures_modify, ensures_ite, ensures_throw, Bool.not_eq_true]
  exact Iff.rfl

theorem ensures_openSocket :
    Ensures openSocket sys post fault ↔
      (sys.net.hSock = true → fault (.assertion .sockIdle)) ∧
      (sys.net.hSock = false → sys.net.rConn = true → fault (.assertion .connIdle)) ∧
      (sys.net.hSock = false → sys.net.rConn = false → post () sys.opened) := by
  simp only [openSocket, setNet, setUv, ensures_bind, ensures_get, ensures_modify, ensures_ite,
    ensures_throw, Bool.not_eq_true, imp_and]
  exact Iff.rfl

theorem ensures_onShutdownSt :
    Ensures onShutdownSt sys post fault ↔ post () sys.shutdownEnded :=
  Iff.rfl

theorem ensures_netOnClose {app : App} {post : Unit → App → Prop} :
    Ensures netOnClose app post fault ↔ post () app.disconnected := by
  simp only [netOnClose, onPoolDisconnect, ensures_bind, ensures_modify]
  change Ensures (if app.currentType ≠ .idle then _ else _) _ _ _ ↔ _
  rw [ensures_ite]
  by_cases idle : app.currentType = .idle
  · simp only [App.disconnected, idle, ne_eq, not_true_eq_false, if_false, false_implies,
      not_false_eq_true, true_implies, true_and]
    exact Iff.rfl
  · simp only [App.disconnected, idle, ne_eq, not_false_eq_true, if_true, not_true_eq_false,
      false_implies, true_implies, and_true]
    exact Iff.rfl

theorem ensures_onSocketClosed (env : Env Engine) :
    Ensures (onSocketClosed env) sys post fault ↔ post () (sys.socketClosed env) := by
  cases tls : env.useTls <;>
    simp only [onSocketClosed, tls, setUv, setTls, setNet, liftApp, Bool.false_eq_true, if_true,
      if_false, ensures_bind, ensures_modify, ensures_zoom, ensures_netOnClose, ensures_record,
      Sys.socketClosed] <;>
    exact Iff.rfl

end Specs

/-! ## On an open socket -/

/-- Behaviours closed under all that the callbacks of an open socket do. -/
structure OnSocket (env : Env Engine) (behaviour : Behaviour Fault (Sys Engine)) : Prop
    extends Closed env behaviour where
  session : ∀ sys update, sys.app.pool.state ≠ .hasJob → behaviour.Change sys (sys.withTls update)
  reads : ∀ sys, sys.uv.connected = true →
    behaviour.Change sys { sys with uv := { sys.uv with reading := true } }

/-- Attached to a connected stream without a job that is not being closed. -/
structure Greeting (env : Env Engine) (sys : Sys Engine) : Prop where
  attached : Attached env sys
  fresh : Fresh sys
  closing : sys.uv.closing = false

theorem Greeting.reads {env : Env Engine} {sys : Sys Engine} (greeting : Greeting env sys) :
    Greeting env { sys with uv := { sys.uv with reading := true } } where
  attached :=
    { greeting.attached with
      reading := fun _ => greeting.fresh.2
      closing := by
        intro closing
        rw [greeting.closing] at closing
        cases closing }
  fresh := greeting.fresh
  closing := greeting.closing

theorem Core.attached {α : Type} {env : Env Engine} {behaviour : Behaviour Fault (Sys Engine)}
    (core : Core behaviour) {program : Loop Engine α}
    (within : ∀ {behaviour : Behaviour Fault (Sys Engine)}, Core behaviour →
      behaviour.Within program) {sys : Sys Engine} (attached : Attached env sys) :
    behaviour.Ends program sys fun _ next => Attached env next :=
  (core.along within sys).mono fun _ _ along => attached.along along

theorem Attached.answered {env : Env Engine} {sys : Sys Engine} (attached : Attached env sys)
    (due : sys.uv.conn = true) (ok : Bool) :
    Attached env { sys with uv := { sys.uv with conn := false, connected := ok } } ∧
      (ok = true →
        Greeting env { sys with uv := { sys.uv with conn := false, connected := ok } }) := by
  obtain ⟨none, reading, shutdown, closing⟩ := attached.detached (attached.connecting due).1
  have still : Attached env { sys with uv := { sys.uv with conn := false, connected := ok } } :=
    { coherent := .of_jobless none
      connecting := by simp
      reading := by simp [reading]
      socket := fun _ => (attached.connecting due).2
      shutting := by simp [shutdown]
      closing := by simp [closing] }
  exact ⟨still, fun good => ⟨still, ⟨none, good⟩, closing⟩⟩

namespace OnSocket

variable {env : Env Engine} {behaviour : Behaviour Fault (Sys Engine)}
  (onSocket : OnSocket env behaviour)

include onSocket

theorem failed (err : Bytes) (sys : Sys Engine) (attached : Attached env sys) :
    behaviour.Ends (netOnError env (doShutdown env) err) sys fun _ next => Attached env next :=
  onSocket.toCore.attached (fun core => (core.netOnError core.doShutdown err).within) attached

theorem shutDown (sys : Sys Engine) (attached : Attached env sys) :
    behaviour.Ends (doShutdown env) sys fun _ next => Attached env next :=
  onSocket.toCore.attached (fun core => core.doShutdown.within) attached

theorem checkCallTimeouts (sys : Sys Engine) (attached : Attached env sys) :
    behaviour.Ends (checkCallTimeouts env) sys fun _ next => Attached env next := by
  apply Behaviour.Ends.get_bind
  exact Behaviour.Ends.ite (fun _ => onSocket.failed _ sys attached)
    fun _ => Behaviour.Ends.pure attached

/-! ### Connecting -/

theorem setTls (update : TlsInterface Engine → TlsInterface Engine) (sys : Sys Engine)
    (greeting : Greeting env sys) :
    behaviour.Ends (setTls update) sys fun _ next => Greeting env next := by
  refine ⟨onSocket.session sys update greeting.fresh.1, ?_, greeting.fresh, greeting.closing⟩
  exact { greeting.attached with coherent := .of_jobless greeting.fresh.1 }

theorem startReading (sys : Sys Engine) (greeting : Greeting env sys) :
    behaviour.Ends (setUv fun uv => { uv with reading := true }) sys
      fun _ next => Greeting env next :=
  ⟨onSocket.reads sys greeting.fresh.2, greeting.reads⟩

theorem tlsFailed (sys : Sys Engine) (attached : Attached env sys) :
    behaviour.Ends (tlsFail env) sys fun _ next => Attached env next :=
  onSocket.toCore.attached (fun core => core.tlsFail.within) attached

theorem tlsOnConnect (sys : Sys Engine) (greeting : Greeting env sys) :
    behaviour.Ends (tlsOnConnect env) sys fun _ next => Attached env next := by
  refine (onSocket.setTls _ sys greeting).bind fun _ first greeting => ?_
  apply Behaviour.Ends.get_bind
  refine Behaviour.Ends.ite (fun _ => onSocket.toCore.throw (by decide)) fun _ => ?_
  refine (onSocket.setTls _ first greeting).bind fun _ second greeting => ?_
  refine Behaviour.Ends.ite (fun _ => onSocket.tlsFailed second greeting.attached) fun _ => ?_
  apply Behaviour.Ends.get_bind
  refine (onSocket.setTls _ second greeting).bind fun _ third greeting => ?_
  refine Behaviour.Ends.ite (fun _ => onSocket.tlsFailed third greeting.attached) fun _ => ?_
  refine (onSocket.startReading third greeting).bind fun _ fourth greeting => ?_
  refine Behaviour.Ends.mono (onSocket.toClosed.along fun closed =>
    closed.doSslHandshake fourth greeting.fresh) ?_
  rintro _ next ⟨fresh, change⟩
  exact greeting.attached.steady change (.of_jobless fresh.1)

theorem onConnect (sys : Sys Engine) (greeting : Greeting env sys) :
    behaviour.Ends (onConnect env) sys fun _ next => Attached env next := by
  refine Behaviour.Ends.ite (fun _ => onSocket.tlsOnConnect sys greeting) fun _ => ?_
  refine Behaviour.Ends.bind (onSocket.toClosed.along fun closed =>
    closed.netOnConnect none sys greeting.fresh) ?_
  rintro _ next ⟨fresh, change⟩
  have greets : Greeting env next :=
    ⟨greeting.attached.steady change (.of_jobless fresh.1), fresh,
      change.closing.trans greeting.closing⟩
  exact (onSocket.startReading next greets).mono fun _ _ greeting => greeting.attached

/-! ### Reading and writing -/

theorem onSocketReadSt (chunk : Bytes) (sys : Sys Engine) (attached : Attached env sys)
    (reading : sys.uv.reading = true) :
    behaviour.Ends (onSocketReadSt env chunk) sys fun _ next => Attached env next := by
  have stored : behaviour.Ends (setNet fun net =>
      { net with
        recvBuf := net.recvBuf.write net.recvPos chunk
        recvPos := net.recvPos + chunk.length }) sys
      fun _ next => Attached env next ∧ next.uv.connected = true :=
    ⟨onSocket.received sys _ _, { attached with }, attached.reading reading⟩
  apply stored.bind
  rintro _ next ⟨attached, connected⟩
  refine Behaviour.Ends.bind (onSocket.toClosed.along fun closed =>
    closed.onSocketRead next ⟨attached.coherent, connected⟩) ?_
  rintro good last ⟨receiving, change⟩
  have still := attached.steady change receiving.1
  exact Behaviour.Ends.ite (fun _ => Behaviour.Ends.pure still)
    fun _ => onSocket.shutDown last still

theorem onSocketError (error : Int) (sys : Sys Engine) (attached : Attached env sys) :
    behaviour.Ends (onSocketError env error) sys fun _ next => Attached env next := by
  apply Behaviour.Ends.get_bind
  refine Behaviour.Ends.ite (fun _ => onSocket.shutDown sys attached) fun _ => ?_
  exact (onSocket.failed _ sys attached).bind fun _ next attached => onSocket.shutDown next attached

theorem onSocketWriteSt (idx : Fin 4) (status : Int) (sys : Sys Engine)
    (lost : ∀ sys : Sys Engine, (sys.net.sendBufs idx).active = false →
      behaviour.Fault sys (.assertion .sendActive))
    (written : behaviour.Change sys (sys.writeEnded idx))
    (freed : ∀ sys : Sys Engine, (sys.net.sendBufs idx).active = true →
      behaviour.Change sys
        (sys.withSlot idx fun slot => { slot with rSend := false, active := false }))
    (attached : Attached env sys) :
    behaviour.Ends (onSocketWriteSt env idx status) sys fun _ next => Attached env next := by
  have ended : behaviour.Ends
      (setUv fun uv => { uv with writes := Function.update uv.writes idx false }) sys
      fun _ next => Attached env next :=
    ⟨written, { attached with }⟩
  refine ended.bind fun _ next attached => ?_
  refine Behaviour.Ends.ite (fun _ => ?_) fun _ => onSocket.onSocketError status next attached
  apply Behaviour.Ends.get_bind
  refine Behaviour.Ends.ite (fun free => ?_) fun active => ?_
  · exact (ensures_throw _ next _).mpr (lost next free)
  exact ⟨freed next (by simpa using active), { attached with }⟩

theorem doSendResult (res : MinerResult) (sys : Sys Engine)
    (shared : sys.app.pool.state = .hasJob → behaviour.Change sys (sys.shareMade res))
    (attached : Attached env sys) :
    behaviour.Ends (doSendResult env res) sys fun _ next => Attached env next := by
  apply (onSocket.toClosed.doSendResult res sys shared attached.coherent).mono
  rintro _ next ⟨coherent, change⟩
  exact attached.steady change coherent

end OnSocket

/-! ## Around the socket -/

/-- Behaviours closed under all that the callbacks do, apart from the end of a
write and the close, which a behaviour may have to look at as a whole. -/
structure Rounds (env : Env Engine) (behaviour : Behaviour Fault (Sys Engine)) : Prop
    extends OnSocket env behaviour where
  lifecycle : ∀ sys failure, Lifecycle failure → behaviour.Fault sys failure
  dialled : ∀ sys, sys.app.pool.state = .idle → behaviour.Change sys sys.dialled
  resolved : ∀ sys, behaviour.Change sys { sys with uv := { sys.uv with dns := false } }
  resolvFreed : ∀ sys, behaviour.Change sys { sys with net := { sys.net with rResolv := false } }
  opened : ∀ sys, sys.net.hSock = false → behaviour.Change sys sys.opened
  answered : ∀ sys ok,
    behaviour.Change sys { sys with uv := { sys.uv with conn := false, connected := ok } }
  connFreed : ∀ sys, behaviour.Change sys { sys with net := { sys.net with rConn := false } }
  shutdownEnded : ∀ sys, sys.uv.shutdown = true → behaviour.Change sys sys.shutdownEnded

namespace Rounds

variable {env : Env Engine} {behaviour : Behaviour Fault (Sys Engine)}
  (rounds : Rounds env behaviour)

include rounds

/-! ### Heartbeat -/

theorem dialWhenIdle (sys : Sys Engine) (attached : Attached env sys) :
    behaviour.Ends dialWhenIdle sys fun _ next => Attached env next := by
  apply Behaviour.Ends.get_bind
  refine Behaviour.Ends.ite (fun due => ?_) fun _ => Behaviour.Ends.pure attached
  refine ensures_poolDoConnect.mpr ⟨fun _ => rounds.lifecycle sys _ (by decide), fun _ => ?_⟩
  refine ⟨rounds.dialled sys due.1, ?_⟩
  exact { attached with coherent := .of_jobless (by simp [Sys.dialled, App.setPool, App.record]) }

theorem onHeartbeat (sys : Sys Engine) (attached : Attached env sys) :
    behaviour.Ends (onHeartbeat env) sys fun _ next => Attached env next := by
  apply Behaviour.Ends.get_bind
  refine Behaviour.Ends.ite (fun connected => ?_) fun _ => ?_
  · apply (rounds.toOnSocket.checkCallTimeouts sys attached).bind
    intro _ next attached
    refine Behaviour.Ends.ite (fun other => absurd connected other.1) fun _ => ?_
    exact Behaviour.Ends.pure attached
  · exact Behaviour.Ends.ite (fun _ => rounds.dialWhenIdle sys attached)
      fun _ => Behaviour.Ends.pure attached

/-! ### Connecting -/

theorem openSocket (sys : Sys Engine) (attached : Attached env sys) :
    behaviour.Ends openSocket sys fun _ next => Attached env next := by
  refine ensures_openSocket.mpr
    ⟨fun _ => rounds.lifecycle sys _ (by decide),
      fun _ _ => rounds.lifecycle sys _ (by decide), fun free _ => ?_⟩
  have apart : sys.uv.connected = false := by
    by_contra connected
    have taken := attached.socket (by simpa using connected)
    rw [free] at taken
    cases taken
  obtain ⟨none, reading, shutdown, closing⟩ := attached.detached apart
  refine ⟨rounds.opened sys free, ?_⟩
  exact
    { coherent := .of_jobless none
      connecting := fun _ => ⟨rfl, rfl⟩
      reading := by simp [Sys.opened, reading]
      socket := by simp [Sys.opened]
      shutting := by simp [Sys.opened, shutdown]
      closing := by simp [Sys.opened, closing] }

theorem onDnsResolved (res : List AddrInfo) (rand : Nat) (sys : Sys Engine)
    (attached : Attached env sys) :
    behaviour.Ends (onDnsResolved env res rand) sys fun _ next => Attached env next := by
  unfold EventLoop.onDnsResolved
  split
  · exact rounds.toOnSocket.failed _ sys attached
  · exact rounds.openSocket sys attached

theorem onDnsResolvedSt (status : Int) (res : List AddrInfo) (rand : Nat) (sys : Sys Engine)
    (attached : Attached env sys) :
    behaviour.Ends (onDnsResolvedSt env status res rand) sys fun _ next => Attached env next := by
  have freed : ∀ {first : Loop Engine Unit} {state : Sys Engine},
      (behaviour.Ends first state fun _ next => Attached env next) →
      behaviour.Ends (first >>= fun _ => setNet fun net => { net with rResolv := false }) state
        fun _ next => Attached env next := by
    intro first state ends
    apply ends.bind
    intro _ next attached
    exact ⟨rounds.resolvFreed next, { attached with }⟩
  apply Behaviour.Ends.step rfl (rounds.resolved sys)
  have answered : Attached env { sys with uv := { sys.uv with dns := false } } := { attached with }
  exact Behaviour.Ends.ite (fun _ => freed (rounds.onDnsResolved res rand _ answered))
    fun _ => freed (rounds.toOnSocket.failed _ _ answered)

theorem onConnnectSt (status : Int) (sys : Sys Engine) (attached : Attached env sys)
    (due : sys.uv.conn = true) :
    behaviour.Ends (onConnnectSt env status) sys fun _ next => Attached env next := by
  have freed : ∀ {first : Loop Engine Unit} {state : Sys Engine},
      (behaviour.Ends first state fun _ next => Attached env next) →
      behaviour.Ends (first >>= fun _ => setNet fun net => { net with rConn := false }) state
        fun _ next => Attached env next := by
    intro first state ends
    apply ends.bind
    intro _ next attached
    exact ⟨rounds.connFreed next, { attached with }⟩
  obtain ⟨answered, greets⟩ := Attached.answered attached due (decide (status = 0))
  apply Behaviour.Ends.step rfl (rounds.answered sys _)
  refine Behaviour.Ends.ite (fun ok => freed ?_) fun _ => freed (rounds.toOnSocket.failed _ _ answered)
  exact rounds.toOnSocket.onConnect _ (greets (decide_eq_true ok))

/-! ### Closing -/

theorem onShutdownSt (sys : Sys Engine) (attached : Attached env sys)
    (due : sys.uv.shutdown = true) :
    behaviour.Ends onShutdownSt sys fun _ next => Attached env next := by
  obtain ⟨connected, down⟩ := attached.shutting due
  refine ensures_onShutdownSt.mpr ⟨rounds.shutdownEnded sys due, ?_⟩
  exact
    { attached with
      reading := fun reads => nomatch reads
      shutting := fun pending => nomatch pending
      closing := fun _ => ⟨connected, down, rfl, rfl⟩ }

omit rounds in
theorem onSocketClosed (sys : Sys Engine) (attached : Attached env sys)
    (due : sys.uv.closing = true) (conn : sys.uv.conn = false)
    (closed : behaviour.Change sys (sys.socketClosed env)) :
    behaviour.Ends (onSocketClosed env) sys fun _ next => Attached env next := by
  obtain ⟨-, -, shutdown, reading⟩ := attached.closing due
  refine (ensures_onSocketClosed env).mpr ⟨closed, ?_⟩
  exact
    { coherent := .of_jobless (by simp [Sys.socketClosed, App.disconnected, App.record])
      connecting := by simp [Sys.socketClosed, conn]
      reading := by simp [Sys.socketClosed, reading]
      socket := by simp [Sys.socketClosed]
      shutting := by simp [Sys.socketClosed, shutdown]
      closing := by simp [Sys.socketClosed] }

theorem callback (event : Event) (sys : Sys Engine) (attached : Attached env sys)
    (enabled : Enabled sys event)
    (written : ∀ idx status, event = .written idx status →
      behaviour.Ends (onSocketWriteSt env idx status) sys fun _ next => Attached env next)
    (closed : sys.uv.closing = true → (∀ idx, sys.uv.writes idx = false) →
      behaviour.Change sys (sys.socketClosed env))
    (shared : ∀ res, event = .foundResult res → sys.app.pool.state = .hasJob →
      behaviour.Change sys (sys.shareMade res)) :
    behaviour.Ends (callback env event) sys fun _ next => Attached env next := by
  cases event with
  | heartbeat => exact rounds.onHeartbeat sys attached
  | dnsResolved status res rand => exact rounds.onDnsResolvedSt status res rand sys attached
  | connected status => exact rounds.onConnnectSt status sys attached enabled
  | read chunk => exact rounds.toOnSocket.onSocketReadSt chunk sys attached enabled.1
  | readError error => exact rounds.toOnSocket.onSocketError error sys attached
  | written idx status => exact written idx status rfl
  | shutDown => exact rounds.onShutdownSt sys attached enabled
  | closed =>
      exact onSocketClosed sys attached enabled.1 enabled.2.1 (closed enabled.1 enabled.2.2)
  | foundResult res => exact rounds.toOnSocket.doSendResult res sys (shared res rfl) attached

end Rounds

/-! ## Behaviour of a turn -/

/-- Behaviours closed under all that a callback does, apart from making a share.
Requests, buffers, slots and sessions are plumbing: a behaviour of a turn does not
look at them, apart from the shutdown. -/
structure Passing (env : Env Engine) (behaviour : Behaviour Fault (Sys Engine)) : Prop where
  fault : ∀ sys failure, behaviour.Fault sys failure
  admitted : ∀ sys input, behaviour.Change sys (sys.answering input)
  plumbing : ∀ sys next, next.app = sys.app →
    next.net.shuttingDown = sys.net.shuttingDown → next.uv.shutdown = sys.uv.shutdown →
    next.uv.closing = sys.uv.closing → behaviour.Change sys next
  logError : ∀ sys text, behaviour.Change sys (sys.logged (.logError text))
  shutdownCalled : ∀ sys, behaviour.Change sys (sys.logged .shutdownCalled)
  uvWrite : ∀ sys idx data len accepted,
    behaviour.Change sys (sys.logged (.uvWrite idx data len accepted))
  shutdownStarted : ∀ sys, sys.net.shuttingDown = false → sys.net.rShutdown = false →
    behaviour.Change sys sys.shutdownStarted
  jobDropped : ∀ sys, sys.net.shuttingDown = true → behaviour.Change sys sys.jobDropped
  document : ∀ sys members, Ready env sys →
    behaviour.Ends (liftApp (processJsonDoc env.config (.object members))) sys fun _ _ => True
  welcomed : ∀ sys, sys.app.pool.state ≠ .hasJob → sys.uv.connected = true →
    behaviour.Change sys (sys.withState .connected)
  loginMade : ∀ sys, sys.app.pool.state = .connected → behaviour.Change sys sys.loginMade
  dialled : ∀ sys, sys.app.pool.state = .idle → behaviour.Change sys sys.dialled
  shutdownEnded : ∀ sys, sys.uv.shutdown = true → behaviour.Change sys sys.shutdownEnded
  socketClosed : ∀ sys, sys.uv.closing = true → behaviour.Change sys (sys.socketClosed env)

/-- Behaviours closed under all that a callback does. -/
structure Turn (env : Env Engine) (behaviour : Behaviour Fault (Sys Engine)) : Prop
    extends Passing env behaviour where
  shareMade : ∀ sys res, sys.app.pool.state = .hasJob → behaviour.Change sys (sys.shareMade res)

theorem Enabled.answering {sys : Sys Engine} {input : Input} (enabled : Enabled sys input.event) :
    Enabled (sys.answering input) input.event := by
  cases input with
  | mk event => cases event <;> exact enabled

theorem run_of_handle {env : Env Engine} {sys next : Sys Engine} {input : Input}
    (handled : handle env sys input = .ok next) :
    (callback env input.event).run (sys.answering input) = .ok ((), next) := by
  unfold handle at handled
  split at handled
  · cases handled
  · rename_i ended
    cases handled
    exact ended

theorem run_of_handle_error {env : Env Engine} {sys : Sys Engine} {input : Input}
    {failure : Fault} (failed : handle env sys input = .error failure) :
    (callback env input.event).run (sys.answering input) = .error failure := by
  unfold handle at failed
  split at failed
  · rename_i ended
    cases failed
    exact ended
  · cases failed

theorem step_enabled {env : Env Engine} {sys next : Sys Engine} {input : Input}
    (stepped : (machine env).Step sys input next) :
    Enabled sys input.event ∧ handle env sys input = .ok next := by
  change (if Enabled sys input.event then (handle env sys input).toOption else none) = some next
    at stepped
  split at stepped
  case isFalse => cases stepped
  case isTrue enabled =>
    refine ⟨enabled, ?_⟩
    cases handled : handle env sys input with
    | error failure => simp [handled, Except.toOption] at stepped
    | ok last => simpa [handled, Except.toOption] using stepped

namespace Passing

variable {env : Env Engine} {behaviour : Behaviour Fault (Sys Engine)}
  (turn : Passing env behaviour)

include turn

theorem rounds : Rounds env behaviour where
  fault := fun sys failure _ => turn.fault sys failure
  sendIdle := fun sys _ _ _ => turn.fault sys _
  shutdownIdle := fun sys _ _ => turn.fault sys _
  logError := turn.logError
  shutdownCalled := turn.shutdownCalled
  shutdownStarted := turn.shutdownStarted
  jobDropped := turn.jobDropped
  acquire := fun sys _ _ => turn.plumbing sys _ rfl rfl rfl rfl
  fill := fun sys _ _ _ => turn.plumbing sys _ rfl rfl rfl rfl
  handOver := fun sys idx len _ _ =>
    behaviour.trans (turn.uvWrite sys _ _ _ _)
      (turn.plumbing _ (sys.handedOver idx len) rfl rfl rfl rfl)
  engine := fun sys _ => turn.plumbing sys _ rfl rfl rfl rfl
  received := fun sys _ _ => turn.plumbing sys _ rfl rfl rfl rfl
  plaintext := fun sys _ _ => turn.plumbing sys _ rfl rfl rfl rfl
  document := turn.document
  handshaken := fun sys _ => turn.plumbing sys _ rfl rfl rfl rfl
  welcomed := turn.welcomed
  loginMade := turn.loginMade
  session := fun sys _ _ => turn.plumbing sys _ rfl rfl rfl rfl
  reads := fun sys _ => turn.plumbing sys _ rfl rfl rfl rfl
  lifecycle := fun sys failure _ => turn.fault sys failure
  dialled := turn.dialled
  resolved := fun sys => turn.plumbing sys _ rfl rfl rfl rfl
  resolvFreed := fun sys => turn.plumbing sys _ rfl rfl rfl rfl
  opened := fun sys _ => turn.plumbing sys _ rfl rfl rfl rfl
  answered := fun sys _ => turn.plumbing sys _ rfl rfl rfl rfl
  connFreed := fun sys => turn.plumbing sys _ rfl rfl rfl rfl
  shutdownEnded := turn.shutdownEnded

/-! ### A step -/

theorem callback (event : Event) (sys : Sys Engine) (attached : Attached env sys)
    (enabled : Enabled sys event)
    (shared : ∀ res, event = .foundResult res → sys.app.pool.state = .hasJob →
      behaviour.Change sys (sys.shareMade res)) :
    behaviour.Ends (callback env event) sys fun _ next => Attached env next := by
  refine turn.rounds.callback event sys attached enabled ?_ ?_ shared
  · intro idx status _
    exact turn.rounds.toOnSocket.onSocketWriteSt idx status sys (fun sys _ => turn.fault sys _)
      (turn.plumbing sys _ rfl rfl rfl rfl) (fun sys _ => turn.plumbing sys _ rfl rfl rfl rfl)
      attached
  · exact fun due _ => turn.socketClosed sys due

/-- A step of the event loop behaves if the share it makes does, and keeps the
attachment. -/
theorem step {sys next : Sys Engine} {input : Input} (attached : Attached env sys)
    (stepped : (machine env).Step sys input next)
    (shared : ∀ res, input.event = .foundResult res → sys.app.pool.state = .hasJob →
      behaviour.Change (sys.answering input) ((sys.answering input).shareMade res)) :
    behaviour.Change sys next ∧ Attached env next := by
  obtain ⟨enabled, handled⟩ := step_enabled stepped
  have admitted : Attached env (sys.answering input) := { attached with }
  have ends := turn.callback input.event (sys.answering input) admitted
    (Enabled.answering enabled) shared
  obtain ⟨change, attached⟩ := ends.of_run (run_of_handle handled)
  exact ⟨behaviour.trans (turn.admitted sys input) change, attached⟩

end Passing

/-- A step of the event loop behaves, and keeps the attachment. -/
theorem Turn.step {env : Env Engine} {behaviour : Behaviour Fault (Sys Engine)}
    (turn : Turn env behaviour) {sys next : Sys Engine} {input : Input}
    (attached : Attached env sys) (stepped : (machine env).Step sys input next) :
    behaviour.Change sys next ∧ Attached env next :=
  turn.toPassing.step attached stepped fun res _ hasJob => turn.shareMade _ res hasJob

/-! ### Routine -/

/-- Effects that say nothing of documents, jobs, replies and connections. -/
def Effect.isRoutine : Effect → Bool
  | .share _ => true
  | .submit _ _ => true
  | .login _ => true
  | .logError _ => true
  | .shared .storeNonce => true
  | .shutdownCalled => true
  | .uvShutdown _ => true
  | .uvWrite _ _ _ _ => true
  | _ => false

/-- What a callback does apart from documents, dials and closes. -/
structure Routine (sys next : Sys Engine) (newer : List Effect) : Prop where
  log : next.app.log = newer ++ sys.app.log
  effects : ∀ effect ∈ newer, effect.isRoutine = true
  minerId : next.app.pool.poolMinerId = sys.app.pool.poolMinerId
  executor : next.app.executor = sys.app.executor
  state : next.app.pool.state = .hasJob → sys.app.pool.state = .hasJob

/-- A behaviour that is known from another one as far as the routine goes, is one of
turns if documents, dials and closes behave. -/
theorem Turn.beyond {env : Env Engine} {known behaviour : Behaviour Fault (Sys Engine)}
    (turn : Turn env known) (fault : ∀ sys failure, behaviour.Fault sys failure)
    (routine : ∀ sys next newer, known.Change sys next → Routine sys next newer →
      behaviour.Change sys next)
    (document : ∀ sys members,
      behaviour.Ends (liftApp (processJsonDoc env.config (.object members))) sys fun _ _ => True)
    (dialled : ∀ sys, sys.app.pool.state = .idle → behaviour.Change sys sys.dialled)
    (socketClosed : ∀ sys, sys.uv.closing = true →
      behaviour.Change sys (sys.socketClosed env)) : Turn env behaviour where
  fault := fault
  admitted := fun sys input =>
    routine _ _ [] (turn.admitted sys input) ⟨rfl, by simp, rfl, rfl, id⟩
  plumbing := by
    intro sys next app down shutdown closing
    apply routine _ _ [] (turn.plumbing sys next app down shutdown closing)
    constructor <;> simp [app]
  logError := fun sys text =>
    routine _ _ [_] (turn.logError sys text) ⟨rfl, by simp [Effect.isRoutine], rfl, rfl, id⟩
  shutdownCalled := fun sys =>
    routine _ _ [_] (turn.shutdownCalled sys) ⟨rfl, by simp [Effect.isRoutine], rfl, rfl, id⟩
  uvWrite := fun sys idx data len accepted =>
    routine _ _ [_] (turn.uvWrite sys idx data len accepted)
      ⟨rfl, by simp [Effect.isRoutine], rfl, rfl, id⟩
  shutdownStarted := fun sys down request =>
    routine _ _ [_] (turn.shutdownStarted sys down request)
      ⟨rfl, by simp [Effect.isRoutine], rfl, rfl, id⟩
  jobDropped := fun sys down =>
    routine _ _ [_] (turn.jobDropped sys down) ⟨rfl, by simp [Effect.isRoutine], rfl, rfl, nofun⟩
  document := fun sys members _ => document sys members
  welcomed := fun sys none connected =>
    routine _ _ [] (turn.welcomed sys none connected) ⟨rfl, by simp, rfl, rfl, nofun⟩
  loginMade := fun sys connected =>
    routine _ _ [_] (turn.loginMade sys connected)
      ⟨rfl, by simp [Effect.isRoutine], rfl, rfl, id⟩
  shareMade := fun sys res hasJob =>
    routine _ _ [_, _] (turn.shareMade sys res hasJob)
      ⟨rfl, by simp [Effect.isRoutine], rfl, rfl, id⟩
  dialled := dialled
  shutdownEnded := fun sys due =>
    routine _ _ [] (turn.shutdownEnded sys due) ⟨rfl, by simp, rfl, rfl, id⟩
  socketClosed := socketClosed

/-! ## Runs -/

theorem Initial.attached {env : Env Engine} {sys : Sys Engine} (initial : Initial sys) :
    Attached env sys := by
  obtain ⟨-, conn, connected, reading, shutdown, closing, -⟩ := initial.noCallback
  exact
    { coherent := .of_jobless (by simp [initial.poolIdle])
      connecting := by simp [conn]
      reading := by simp [reading]
      socket := by simp [connected]
      shutting := by simp [shutdown]
      closing := by simp [closing] }

def anything : Behaviour Fault (Sys Engine) where
  Change := fun _ _ => True
  Fault := fun _ _ => True
  refl := fun _ => trivial
  trans := fun _ _ => trivial
  fault_trans := fun _ _ => trivial

theorem anything_turn (env : Env Engine) : Turn env anything where
  fault := fun _ _ => trivial
  admitted := fun _ _ => trivial
  plumbing := fun _ _ _ _ _ _ => trivial
  logError := fun _ _ => trivial
  shutdownCalled := fun _ => trivial
  uvWrite := fun _ _ _ _ _ => trivial
  shutdownStarted := fun _ _ _ => trivial
  jobDropped := fun _ _ => trivial
  document := fun _ _ _ => Ends.document (fun _ _ => trivial) fun _ _ => trivial
  welcomed := fun _ _ _ => trivial
  loginMade := fun _ _ => trivial
  shareMade := fun _ _ _ => trivial
  dialled := fun _ _ => trivial
  shutdownEnded := fun _ _ => trivial
  socketClosed := fun _ _ => trivial

theorem reachable_attached {env : Env Engine}
    {Allowed : Sys Engine → Input → Sys Engine → Prop} {sys : Sys Engine}
    (reachable : (machine env).ReachableWhen Allowed sys) : Attached env sys :=
  reachable.invariant (fun _ initial => Initial.attached initial)
    fun _ _ _ _ attached step _ => ((anything_turn env).step attached step).2

/-- What a behaviour of turns allows from the start of a run, it allows to every
state of the run. -/
theorem Turn.run {env : Env Engine} {behaviour : Behaviour Fault (Sys Engine)}
    (turn : Turn env behaviour) {sys : Sys Engine} (reachable : (machine env).Reachable sys) :
    ∃ start, Initial start ∧ behaviour.Change start sys := by
  obtain ⟨start, initial, steps⟩ := reachable
  refine ⟨start, initial, ?_⟩
  induction steps with
  | refl => exact behaviour.refl start
  | tail before last inductionHypothesis =>
      obtain ⟨input, step, -⟩ := last
      have attached : Attached env _ := reachable_attached ⟨start, initial, before⟩
      exact behaviour.trans inductionHypothesis (turn.step attached step).1

/-! ## Before the first dial -/

/-- Nothing has happened yet: the pool was never dialled. -/
structure Untouched (sys : Sys Engine) : Prop where
  log : sys.app.log = []
  counters : sys.app.executor.poolCtr = .zero
  published : sys.app.executor.published = .initial
  idle : sys.app.pool.state = .idle
  dns : sys.uv.dns = false
  conn : sys.uv.conn = false
  reading : sys.uv.reading = false
  shutdown : sys.uv.shutdown = false
  closing : sys.uv.closing = false
  writes : ∀ idx, sys.uv.writes idx = false

theorem Initial.untouched {sys : Sys Engine} (initial : Initial sys) : Untouched sys := by
  obtain ⟨dns, conn, -, reading, shutdown, closing, writes⟩ := initial.noCallback
  exact ⟨initial.logEmpty, initial.countersZero, initial.jobIdle, initial.poolIdle, dns, conn,
    reading, shutdown, closing, writes⟩

/-- An untouched pool stays so, or is dialled by a heartbeat. -/
theorem Untouched.callback (env : Env Engine) {sys : Sys Engine} (untouched : Untouched sys)
    (event : Event) (enabled : Enabled sys event) :
    Ensures (callback env event) sys (fun _ next => next = sys ∨ next = sys.dialled)
      fun _ => True := by
  have never : ∀ {flag : Bool} {goal : Prop}, flag = false → flag = true → goal := by
    intro flag goal off on
    rw [off] at on
    cases on
  cases event with
  | dnsResolved status res rand => exact never untouched.dns enabled
  | connected status => exact never untouched.conn enabled
  | read chunk => exact never untouched.reading enabled.1
  | readError error => exact never untouched.reading enabled.1
  | written idx status => exact never (untouched.writes idx) enabled
  | shutDown => exact never untouched.shutdown enabled
  | closed => exact never untouched.closing enabled.1
  | foundResult res =>
      change Ensures (doSendResult env res) sys _ _
      unfold doSendResult doSendResultThrough
      rw [ensures_bind, ensures_get, ensures_ite]
      exact ⟨fun _ => .inl rfl, fun has => absurd (by simp [untouched.idle]) has⟩
  | heartbeat =>
      change Ensures (onHeartbeat env) sys _ _
      unfold onHeartbeat
      rw [ensures_bind, ensures_get, ensures_ite]
      refine ⟨fun connected => absurd connected (by simp [untouched.idle]), fun _ => ?_⟩
      rw [ensures_ite]
      refine ⟨fun _ => ?_, fun _ => .inl rfl⟩
      unfold dialWhenIdle
      rw [ensures_bind, ensures_get, ensures_ite]
      refine ⟨fun _ => ?_, fun _ => .inl rfl⟩
      exact ensures_poolDoConnect.mpr ⟨fun _ => trivial, fun _ => .inr rfl⟩

/-- A pool is untouched, or was so until its first dial, and has behaved since. -/
theorem Turn.sinceDial {env : Env Engine} {behaviour : Behaviour Fault (Sys Engine)}
    (turn : Turn env behaviour) {sys : Sys Engine} (reachable : (machine env).Reachable sys) :
    Untouched sys ∨
      ∃ before, Untouched before ∧ behaviour.Change (Sys.dialled before) sys := by
  have initially : ∀ start, (machine env).Initial start → Untouched start ∨
      ∃ before, Untouched before ∧ behaviour.Change (Sys.dialled before) start :=
    fun _ initial => .inl (Initial.untouched initial)
  apply reachable.invariant initially
  intro state input next reachable history stepped _
  rcases history with untouched | ⟨before, untouched, change⟩
  · obtain ⟨enabled, handled⟩ := step_enabled stepped
    have still : Untouched (state.answering input) := { untouched with }
    have ends := (still.callback env input.event (Enabled.answering enabled)).of_run
      (run_of_handle handled)
    rcases ends with rfl | rfl
    · exact .inl still
    · exact .inr ⟨_, still, behaviour.refl _⟩
  · have attached : Attached env state := reachable_attached reachable
    exact .inr ⟨before, untouched, behaviour.trans change (turn.step attached stepped).1⟩

end EpicMiner.EventLoop
