import EpicMiner.EventLoop.Idle

/-!
Owns the asserts of the connection life cycle. The pool becomes idle, and so due
for a new dial, at the moment of an error; the socket of the old connection is
cleared by the close callback only. The asserts hold as long as no dial comes in
between.
-/

namespace EpicMiner.EventLoop

open EpicMiner.Library
open EpicMiner.Library.Program
open EpicMiner.Data

variable {Engine : Type}

/-! ## Invariant -/

/-- A shutdown request is in use only while a shutdown is under way, and no more
once the socket is being closed. -/
structure ShutdownOrder (sys : Sys Engine) : Prop where
  requested : sys.net.shuttingDown = false → sys.net.rShutdown = false
  closing : sys.uv.closing = true → sys.net.shuttingDown = true ∧ sys.net.rShutdown = false

/-- What holds between two callbacks of the requests and the socket. A request that libuv
refused is in use as well, and no callback of it comes. -/
structure Orderly (env : Env Engine) (sys : Sys Engine) : Prop where
  order : ShutdownOrder sys
  resolving : sys.uv.dns = true → sys.net.rResolv = true
  connecting : sys.net.rConn = true → sys.net.hSock = true ∧ sys.uv.connected = false
  dialling : sys.net.rResolv = true → sys.app.pool.state = .connecting ∧ sys.net.hSock = false
  greeted : sys.app.pool.state = .connected → sys.net.hSock = true
  unopened : sys.net.hSock = false →
    (∀ idx, sys.uv.writes idx = false) ∧ (env.useTls = true → sys.tls.ssl = false)

/-- What holds inside the callbacks of an open socket. `Request` says how its
connect request stands to the stream. -/
structure Open (Request : Bool → Bool → Prop) (sys : Sys Engine) : Prop where
  order : ShutdownOrder sys
  hSock : sys.net.hSock = true
  dns : sys.uv.dns = false
  rResolv : sys.net.rResolv = false
  request : Request sys.net.rConn sys.uv.connected

/-- Between callbacks, the connect request is in use only on a stream that is not
connected. -/
abbrev Settled (sys : Sys Engine) : Prop :=
  Open (fun rConn connected => rConn = true → connected = false) sys

theorem Open.orderly {env : Env Engine} {sys : Sys Engine} (settled : Settled sys) :
    Orderly env sys where
  order := settled.order
  resolving := by simp [settled.dns]
  connecting := fun request => ⟨settled.hSock, settled.request request⟩
  dialling := by simp [settled.rResolv]
  greeted := fun _ => settled.hSock
  unopened := by simp [settled.hSock]

theorem Orderly.settled {env : Env Engine} {sys : Sys Engine} (orderly : Orderly env sys)
    (hSock : sys.net.hSock = true) : Settled sys := by
  have rResolv : sys.net.rResolv = false := by
    by_contra request
    have free := (orderly.dialling (by simpa using request)).2
    rw [hSock] at free
    cases free
  have dns : sys.uv.dns = false := by
    by_contra pending
    have request := orderly.resolving (by simpa using pending)
    rw [rResolv] at request
    cases request
  exact ⟨orderly.order, hSock, dns, rResolv, fun request => (orderly.connecting request).2⟩

/-! ## The open socket -/

/-- The behaviour of an open socket: it stays open and no assert fails. -/
def staysOpen (Request : Bool → Bool → Prop) : Behaviour Fault (Sys Engine) :=
  .keeping (Open Request) Lifecycle

theorem staysOpen_onSocket (env : Env Engine) (Request : Bool → Bool → Prop) :
    OnSocket env (staysOpen Request) where
  fault := fun _ _ harmless _ => harmless.1
  sendIdle := fun _ _ _ _ _ => by decide
  shutdownIdle := by
    intro sys down request holds
    have free := holds.order.requested down
    rw [request] at free
    cases free
  logError := fun _ _ holds => { holds with order := { holds.order with } }
  shutdownCalled := fun _ holds => { holds with order := { holds.order with } }
  shutdownStarted := by
    intro sys down request holds
    refine { holds with order := ⟨fun idle => (nomatch idle), fun closing => ?_⟩ }
    have under := (holds.order.closing closing).1
    rw [down] at under
    cases under
  jobDropped := fun _ _ holds => { holds with order := { holds.order with } }
  acquire := fun _ _ _ holds => { holds with order := { holds.order with } }
  fill := fun _ _ _ _ holds => { holds with order := { holds.order with } }
  handOver := fun _ _ _ _ _ holds => { holds with order := { holds.order with } }
  engine := fun _ _ holds => { holds with order := { holds.order with } }
  received := fun _ _ _ holds => { holds with order := { holds.order with } }
  plaintext := fun _ _ _ holds => { holds with order := { holds.order with } }
  document := fun _ _ _ => Ends.document (fun _ fault _ => fault.harmless.1)
    fun _ _ holds => { holds with order := { holds.order with } }
  handshaken := fun _ _ holds => { holds with order := { holds.order with } }
  welcomed := fun _ _ _ holds => { holds with order := { holds.order with } }
  loginMade := fun _ _ holds => { holds with order := { holds.order with } }
  session := fun _ _ _ holds => { holds with order := { holds.order with } }
  reads := fun _ _ holds => { holds with order := { holds.order with } }

theorem Open.runs {α : Type} {Request : Bool → Bool → Prop} {program : Loop Engine α}
    {sys : Sys Engine} {post : α → Sys Engine → Prop} (holds : Open Request sys)
    (ends : (staysOpen Request).Ends program sys post) :
    Ensures program sys (fun _ next => Open Request next) fun failure => ¬ Lifecycle failure :=
  Ensures.imp ends (fun _ _ ended => ended.1 holds) fun _ fault => fault holds

/-! ## Errors before a socket is open -/

theorem ShutdownOrder.steady {sys next : Sys Engine} (order : ShutdownOrder sys)
    (change : Steady sys next) : ShutdownOrder next := by
  rcases change.shutdown with ⟨down, request, -⟩ | ⟨idle, -, down, -⟩
  · constructor
    · rw [down, request]
      exact order.requested
    · rw [change.closing, down, request]
      exact order.closing
  · constructor
    · intro other
      rw [down] at other
      cases other
    · intro closing
      rw [change.closing] at closing
      have under := (order.closing closing).1
      rw [idle] at under
      cases under

theorem doShutdown_unopened (env : Env Engine) (sys : Sys Engine)
    (noSession : env.useTls = true → sys.tls.ssl = false) :
    Ensures (doShutdown env) sys (fun _ next => next.uv.writes = sys.uv.writes)
      fun _ => True := by
  unfold doShutdown
  split
  · rename_i tls
    cases env.stack with
    | zero => trivial
    | succ depth =>
        unfold tlsDoShutdown
        simp only [ensures_bind, ensures_record, ensures_get, ensures_ite, ensures_pure,
          ensures_throw, implies_true, true_and]
        refine ⟨fun _ => rfl, fun _ session => ?_⟩
        exact absurd (noSession tls) session
  · exact ensures_netDoShutdown.mpr ⟨fun _ => rfl, fun _ _ => rfl, fun _ _ => trivial⟩

theorem netOnError_unopened (env : Env Engine) (err : Bytes) (sys : Sys Engine)
    (order : ShutdownOrder sys) (noSession : env.useTls = true → sys.tls.ssl = false) :
    Ensures (netOnError env (doShutdown env) err) sys
      (fun _ next => Steady sys next ∧ next.uv.writes = sys.uv.writes ∧
        next.app.pool.state = .idle)
      fun failure => ¬ Lifecycle failure := by
  have quiet : Ensures (netOnError env (doShutdown env) err) sys
      (fun _ next => next.uv.writes = sys.uv.writes ∧ next.app.pool.state = .idle)
      fun _ => True := by
    unfold netOnError
    rw [ensures_bind_of_run rfl, ensures_bind]
    apply Ensures.mono (doShutdown_unopened env (sys.logged _) noSession)
    intro _ next writes
    exact ⟨writes, rfl⟩
  refine (Ensures.and (steady_core.netOnError steady_core.doShutdown err sys) quiet).imp ?_ ?_
  · rintro _ next ⟨⟨change, -⟩, writes, idle⟩
    exact ⟨change, writes, idle⟩
  · rintro failure ⟨fault, -⟩ lifecycle
    obtain ⟨down, request⟩ := fault lifecycle
    rw [order.requested down] at request
    cases request

/-! ## Callbacks -/

/-- `program` ends orderly, and no assert of the life cycle fails in it. -/
abbrev Safe (env : Env Engine) (program : Loop Engine Unit) (sys : Sys Engine) : Prop :=
  Ensures program sys (fun _ next => Orderly env next) fun failure => ¬ Lifecycle failure

/-- A heartbeat does not dial while a socket of the old connection is left. -/
def DialsClear (sys : Sys Engine) : Event → Int → Prop
  | .heartbeat, now => sys.app.pool.state = .idle →
      now - sys.app.pool.lastConnectAttempt > 10000 → sys.net.hSock = false
  | _, _ => True

section Callbacks

variable {env : Env Engine} {sys : Sys Engine} (attached : Attached env sys)
  (orderly : Orderly env sys)

include orderly

theorem Orderly.safe {program : Loop Engine Unit} (hSock : sys.net.hSock = true)
    {post : Unit → Sys Engine → Prop}
    (ends : (staysOpen fun rConn connected => rConn = true → connected = false).Ends program sys
      post) :
    Safe env program sys :=
  ((orderly.settled hSock).runs ends).mono fun _ _ settled => settled.orderly

theorem safe_failedDial (err : Bytes) (due : sys.uv.dns = true) :
    Safe env (netOnError env (doShutdown env) err >>= fun _ =>
      setNet fun net => { net with rResolv := false })
      { sys with uv := { sys.uv with dns := false } } := by
  have free := (orderly.dialling (orderly.resolving due)).2
  obtain ⟨unwritten, noSession⟩ := orderly.unopened free
  have order : ShutdownOrder { sys with uv := { sys.uv with dns := false } } :=
    { orderly.order with }
  rw [Safe, ensures_bind]
  apply Ensures.mono (netOnError_unopened env err _ order noSession)
  rintro _ next ⟨change, writes, idle⟩
  have ended := order.steady change
  refine
    { order := ⟨ended.requested, ended.closing⟩
      resolving := fun pending => ?_
      connecting := fun request => ?_
      dialling := nofun
      greeted := fun connected => ?_
      unopened := fun _ => ⟨fun idx => ?_, fun tls => change.ssl.trans (noSession tls)⟩ }
  · rw [show next.uv.dns = false from change.dns] at pending
    cases pending
  · have taken := (orderly.connecting (change.rConn.symm.trans request)).1
    rw [free] at taken
    cases taken
  · rw [idle] at connected
    cases connected
  · exact (congrFun writes idx).trans (unwritten idx)

include attached

theorem safe_onHeartbeat (clear : DialsClear sys .heartbeat sys.app.now) :
    Safe env (onHeartbeat env) sys := by
  unfold onHeartbeat
  rw [Safe, ensures_bind, ensures_get, ensures_ite]
  constructor
  · intro connected
    have timeouts := orderly.safe (orderly.greeted connected)
      ((staysOpen_onSocket env _).checkCallTimeouts sys attached)
    rw [ensures_bind]
    refine timeouts.mono fun _ next orderly => ?_
    rw [ensures_ite]
    exact ⟨fun other => absurd connected other.1, fun _ => orderly⟩
  · intro _
    rw [ensures_ite]
    refine ⟨fun _ => ?_, fun _ => orderly⟩
    unfold dialWhenIdle
    rw [ensures_bind, ensures_get, ensures_ite]
    refine ⟨fun due => ?_, fun _ => orderly⟩
    have free : sys.net.hSock = false := clear due.1 due.2
    refine ensures_poolDoConnect.mpr ⟨fun taken => ?_, fun _ => ?_⟩
    · have dialling := (orderly.dialling taken).1
      rw [due.1] at dialling
      cases dialling
    · exact
        { order := ⟨orderly.order.requested, orderly.order.closing⟩
          resolving := fun _ => rfl
          connecting := orderly.connecting
          dialling := fun _ => ⟨rfl, free⟩
          greeted := fun connected => (nomatch connected)
          unopened := orderly.unopened }

omit attached in
theorem safe_onDnsResolvedSt (status : Int) (res : List AddrInfo) (rand : Nat)
    (due : sys.uv.dns = true) : Safe env (onDnsResolvedSt env status res rand) sys := by
  have failed := safe_failedDial orderly
  have free := (orderly.dialling (orderly.resolving due)).2
  unfold onDnsResolvedSt
  rw [Safe, ensures_bind_of_run rfl]
  refine (ensures_ite ..).mpr ⟨fun _ => ?_, fun _ => failed _ due⟩
  unfold onDnsResolved
  split
  · exact failed _ due
  · refine (ensures_bind ..).mpr (ensures_openSocket.mpr ⟨fun taken => ?_, fun _ taken => ?_, ?_⟩)
    · rw [free] at taken
      cases taken
    · have opened := (orderly.connecting taken).1
      rw [free] at opened
      cases opened
    · intro _ _
      have order := orderly.order
      exact Open.orderly ⟨⟨order.requested, order.closing⟩, rfl, rfl, rfl, fun _ => rfl⟩

/-- While the connect callback runs, the connect request is in use although its
callback has come. -/
theorem safe_onConnnectSt (status : Int) (due : sys.uv.conn = true) :
    Safe env (onConnnectSt env status) sys := by
  obtain ⟨answered, greets⟩ := Attached.answered attached due (decide (status = 0))
  have settled := orderly.settled (attached.connecting due).2
  have holds : Open (fun _ _ => True)
      { sys with uv := { sys.uv with conn := false, connected := decide (status = 0) } } :=
    ⟨{ settled.order with }, settled.hSock, settled.dns, settled.rResolv, trivial⟩
  have freed : ∀ {first : Loop Engine Unit} {post : Unit → Sys Engine → Prop},
      (staysOpen fun _ _ => True).Ends first
        { sys with uv := { sys.uv with conn := false, connected := decide (status = 0) } } post →
      Safe env (first >>= fun _ => setNet fun net => { net with rConn := false })
        { sys with uv := { sys.uv with conn := false, connected := decide (status = 0) } } := by
    intro first post ends
    refine (ensures_bind ..).mpr ((holds.runs ends).mono fun _ next opened => ?_)
    have order := opened.order
    exact Open.orderly
      ⟨⟨order.requested, order.closing⟩, opened.hSock, opened.dns, opened.rResolv, nofun⟩
  have onSocket := staysOpen_onSocket env fun _ _ => True
  unfold onConnnectSt
  rw [Safe, ensures_bind_of_run rfl]
  refine (ensures_ite ..).mpr ⟨fun ok => ?_, fun _ => freed (onSocket.failed _ _ answered)⟩
  exact freed (onSocket.onConnect _ (greets (decide_eq_true ok)))

theorem safe_onShutdownSt (due : sys.uv.shutdown = true) : Safe env onShutdownSt sys := by
  obtain ⟨connected, down⟩ := attached.shutting due
  have settled := orderly.settled (attached.socket connected)
  refine ensures_onShutdownSt.mpr (Open.orderly ?_)
  exact ⟨⟨fun _ => rfl, fun _ => ⟨down, rfl⟩⟩, settled.hSock, settled.dns, settled.rResolv,
    settled.request⟩

theorem safe_onSocketClosed (due : sys.uv.closing = true)
    (writes : ∀ idx, sys.uv.writes idx = false) : Safe env (onSocketClosed env) sys := by
  obtain ⟨connected, -⟩ := attached.closing due
  have settled := orderly.settled (attached.socket connected)
  have request := (orderly.order.closing due).2
  apply (ensures_onSocketClosed env).mpr
  exact
    { order := ⟨fun _ => request, fun closing => nomatch closing⟩
      resolving := orderly.resolving
      connecting := fun request => absurd (settled.request request) (by simp [connected])
      dialling := fun request => absurd (settled.rResolv.symm.trans request) (by decide)
      greeted := fun other => nomatch other
      unopened := fun _ => ⟨writes, fun tls => by simp [Sys.socketClosed, tls]⟩ }

theorem safe_onSocketWriteSt (idx : Fin 4) (status : Int) (due : sys.uv.writes idx = true) :
    Safe env (onSocketWriteSt env idx status) sys := by
  have hSock : sys.net.hSock = true := by
    by_contra free
    have unwritten := (orderly.unopened (by simpa using free)).1 idx
    rw [due] at unwritten
    cases unwritten
  refine orderly.safe hSock
    ((staysOpen_onSocket env _).onSocketWriteSt idx status sys ?_ ?_ ?_ attached)
  · exact fun _ _ _ => by decide
  · exact fun holds => { holds with order := { holds.order with } }
  · exact fun _ _ holds => { holds with order := { holds.order with } }

theorem safe_doSendResult (res : MinerResult) : Safe env (doSendResult env res) sys := by
  by_cases hasJob : sys.app.pool.state = .hasJob
  · have hSock := attached.socket (attached.coherent hasJob).1
    refine orderly.safe hSock ((staysOpen_onSocket env _).doSendResult res sys ?_ attached)
    exact fun _ holds => { holds with order := { holds.order with } }
  · unfold doSendResult doSendResultThrough
    exact (ensures_bind_of_run rfl).mpr ((ensures_ite ..).mpr ⟨fun _ => orderly, fun has =>
      absurd (not_not.mp has) hasJob⟩)

/-- No callback fails an assert of the life cycle, as long as no dial comes too
early. -/
theorem safe_callback (event : Event) (enabled : Enabled sys event)
    (clear : DialsClear sys event sys.app.now) : Safe env (callback env event) sys := by
  have onSocket :=
    staysOpen_onSocket env fun rConn connected => rConn = true → connected = false
  cases event with
  | heartbeat => exact safe_onHeartbeat attached orderly clear
  | dnsResolved status res rand =>
      exact safe_onDnsResolvedSt orderly status res rand enabled
  | connected status => exact safe_onConnnectSt attached orderly status enabled
  | read chunk =>
      have hSock := attached.socket (attached.reading enabled.1)
      exact orderly.safe hSock (onSocket.onSocketReadSt chunk sys attached enabled.1)
  | readError error =>
      have hSock := attached.socket (attached.reading enabled.1)
      exact orderly.safe hSock (onSocket.onSocketError error sys attached)
  | written idx status => exact safe_onSocketWriteSt attached orderly idx status enabled
  | shutDown => exact safe_onShutdownSt attached orderly enabled
  | closed => exact safe_onSocketClosed attached orderly enabled.1 enabled.2.2
  | foundResult res => exact safe_doSendResult attached orderly res

end Callbacks

/-! ## Runs -/

def failureOf (env : Env Engine) (sys : Sys Engine) (input : Input) : Option Fault :=
  match handle env sys input with
  | .error failure => some failure
  | .ok _ => none

theorem failureOf_eq_some {env : Env Engine} {sys : Sys Engine} {input : Input} {failure : Fault} :
    failureOf env sys input = some failure ↔ handle env sys input = .error failure := by
  unfold failureOf
  split <;> simp_all

theorem Initial.orderly {env : Env Engine} {sys : Sys Engine} (initial : Initial sys) :
    Orderly env sys := by
  obtain ⟨dns, -, -, -, -, closing, writes⟩ := initial.noCallback
  exact
    { order := ⟨fun _ => initial.shutdown, by simp [closing]⟩
      resolving := by simp [dns]
      connecting := by simp [initial.conn]
      dialling := by simp [initial.resolv]
      greeted := by simp [initial.poolIdle]
      unopened := fun _ => ⟨writes, fun _ => initial.noSession.1⟩ }

/-- Runs in which no dial comes before the old socket is gone. -/
abbrev ReachableClear (env : Env Engine) (sys : Sys Engine) : Prop :=
  (machine env).ReachableWhen (fun before input _ => DialsClear before input.event input.now) sys

theorem safe_handle {env : Env Engine} {sys : Sys Engine} {input : Input}
    (attached : Attached env sys) (orderly : Orderly env sys) (enabled : Enabled sys input.event)
    (clear : DialsClear sys input.event input.now) :
    Safe env (callback env input.event) (sys.answering input) := by
  have order := orderly.order
  have admitted : Orderly env (sys.answering input) :=
    { orderly with order := ⟨order.requested, order.closing⟩ }
  have still : Attached env (sys.answering input) := { attached with }
  apply safe_callback still admitted input.event (Enabled.answering enabled)
  cases input with
  | mk event => cases event <;> exact clear

theorem reachable_orderly {env : Env Engine} {sys : Sys Engine}
    (reachable : ReachableClear env sys) : Orderly env sys := by
  have initially : ∀ start, (machine env).Initial start → Orderly env start :=
    fun _ initial => Initial.orderly initial
  apply reachable.invariant initially
  intro before input next reachable orderly stepped clear
  obtain ⟨enabled, handled⟩ := step_enabled stepped
  have safe := safe_handle (reachable_attached reachable) orderly enabled clear
  exact safe.of_run (run_of_handle handled)

/-- In a run without early dials, no event that is due can fail an assert of the
connection life cycle. -/
theorem lifecycle_asserts_hold (env : Env Engine) (sys : Sys Engine) (input : Input)
    (reachable : ReachableClear env sys) (enabled : Enabled sys input.event)
    (clear : DialsClear sys input.event input.now) (failure : Fault)
    (lifecycle : Lifecycle failure) :
    handle env sys input ≠ .error failure := by
  intro failed
  have attached := reachable_attached reachable
  have safe := safe_handle attached (reachable_orderly reachable) enabled clear
  exact safe.of_fault (run_of_handle_error failed) lifecycle

instance (sys : Sys Engine) (event : Event) (now : Int) : Decidable (DialsClear sys event now) :=
  match event with
  | .heartbeat => inferInstanceAs (Decidable (_ → _ → _))
  | .dnsResolved _ _ _ | .connected _ | .read _ | .readError _ | .written _ _ | .shutDown | .closed
  | .foundResult _ => .isTrue trivial

theorem lifecycle_asserts_hold_after_lostSession :
    handle .sample (Machine.execute (Machine.guard (fun sys input => DialsClear sys input.event
      input.now) (step .sample)) .start lostSession) (Event.heartbeat.at 31000) ≠
      .error (.assertion .resolvIdle) := by
  obtain ⟨reachable, clear⟩ := Machine.execute_reachableWhen Sys.start_initial (step .sample)
    (fun sys input => DialsClear sys input.event input.now) lostSession
    (fun sys => DialsClear sys .heartbeat 31000) (by decide +kernel)
  exact lifecycle_asserts_hold .sample _ (Event.heartbeat.at 31000) reachable trivial clear _
    (by decide)

/-- The connection is refused, and the pool dials again ten seconds later. -/
def redialSession : List Input :=
  [Event.heartbeat.at 20000, (Event.dnsResolved 0 [⟨.inet, []⟩] 0).at 20010,
    (Event.connected (-111)).at 20020, Event.heartbeat.at 31000]

/-- The socket of the refused connection is left: `uv_shutdown` does not accept a
stream that is not connected, so no close callback comes. -/
theorem redialSession_fails_assert :
    ∃ sys, (machine .sample).Reachable sys ∧
      Enabled sys (.dnsResolved 0 [⟨.inet, []⟩] 0) ∧
      handle .sample sys ((Event.dnsResolved 0 [⟨.inet, []⟩] 0).at 31010) =
        .error (.assertion .sockIdle) := by
  have executed := Machine.execute_reachable Sys.start_initial (step .sample) redialSession
    (fun sys => Enabled sys (.dnsResolved 0 [⟨.inet, []⟩] 0) ∧
      failureOf .sample sys ((Event.dnsResolved 0 [⟨.inet, []⟩] 0).at 31010) =
        some (.assertion .sockIdle)) (by decide +kernel)
  exact ⟨_, executed.1, executed.2.1, failureOf_eq_some.mp executed.2.2⟩

end EpicMiner.EventLoop
