import EpicMiner.EventLoop.Idle
import EpicMiner.EventLoop.Timeouts

/-!
Owns that the pool never gets stuck while libuv accepts its requests. Whenever it is not idle, a
callback of libuv is still to come, and an idle pool is dialled by a heartbeat; so no such run
ends in a pool that waits for nothing. A refused resolve or connect does leave one behind, since
no answer of libuv to these is looked at.
-/

namespace EpicMiner.EventLoop

open EpicMiner.Library
open EpicMiner.Library.Program
open EpicMiner.Data

variable {Engine : Type}

/-! ## What the pool waits for -/

/-- A pool that is not idle has a request or a stream, and a stream is read until its shutdown.
A callback that still has to see to the one is `dialling`, to the other `greeting`. -/
structure Watched (dialling greeting : Prop) (sys : Sys Engine) : Prop where
  awake : sys.app.pool.state ≠ .idle →
    dialling ∨ sys.uv.dns = true ∨ sys.uv.conn = true ∨ sys.uv.connected = true
  reading : sys.uv.connected = true →
    greeting ∨ sys.uv.reading = true ∨ sys.net.shuttingDown = true
  shutting : sys.uv.shutdown = true → sys.net.shuttingDown = true
  resolving : dialling ∨ sys.net.rResolv = sys.uv.dns

/-- Between two callbacks. -/
abbrev Waiting (sys : Sys Engine) : Prop :=
  Watched False False sys

/-- The socket callbacks leave the pool watched. -/
def watching (dialling greeting : Prop) : Behaviour Fault (Sys Engine) :=
  .keeping (Watched dialling greeting) fun _ => False

theorem watching_onSocket (env : Env Engine) (dialling greeting : Prop) :
    OnSocket env (watching dialling greeting) where
  fault := fun _ _ _ _ => id
  sendIdle := fun _ _ _ _ _ => id
  shutdownIdle := fun _ _ _ _ => id
  logError := fun _ _ watched => { watched with }
  shutdownCalled := fun _ watched => { watched with }
  shutdownStarted := fun _ _ _ watched =>
    ⟨watched.awake, fun _ => .inr (.inr rfl), fun _ => rfl, watched.resolving⟩
  jobDropped := fun _ _ watched => { watched with awake := fun busy => absurd rfl busy }
  acquire := fun _ _ _ watched => { watched with }
  fill := fun _ _ _ _ watched => { watched with }
  handOver := fun _ _ _ _ _ watched => { watched with }
  engine := fun _ _ watched => { watched with }
  received := fun _ _ _ watched => { watched with }
  plaintext := fun _ _ _ watched => { watched with }
  document := fun _ _ ready => Ends.document (fun _ _ _ => id) fun _ _ watched =>
    { watched with awake := fun _ => .inr (.inr (.inr ready.1)) }
  handshaken := fun _ _ watched => { watched with }
  welcomed := fun _ _ connected watched =>
    { watched with awake := fun _ => .inr (.inr (.inr connected)) }
  loginMade := fun _ _ watched => { watched with }
  session := fun _ _ _ watched => { watched with }
  reads := fun _ _ watched => { watched with reading := fun _ => .inr (.inl rfl) }

/-- `program` ends with the pool waiting for a callback, if it is not idle. -/
abbrev Waits (program : Loop Engine Unit) (sys : Sys Engine) : Prop :=
  Ensures program sys (fun _ next => Waiting next) fun _ => True

theorem Watched.runs {dialling greeting : Prop} {program : Loop Engine Unit} {sys : Sys Engine}
    {post : Unit → Sys Engine → Prop} (watched : Watched dialling greeting sys)
    (ends : (watching dialling greeting).Ends program sys post) :
    Ensures program sys (fun _ next => Watched dialling greeting next ∧ post () next)
      fun _ => True :=
  Ensures.imp ends (fun _ _ ended => ⟨ended.1 watched, ended.2⟩) fun _ _ => trivial

theorem Watched.waits {program : Loop Engine Unit} {sys : Sys Engine}
    {post : Unit → Sys Engine → Prop} (waiting : Waiting sys)
    (ends : (watching False False).Ends program sys post) : Waits program sys :=
  (waiting.runs ends).mono fun _ _ ended => ended.1

/-! ## Greeting -/

/-- The stream is read, or its shutdown is under way. -/
def Reads (sys : Sys Engine) : Prop :=
  sys.uv.reading = true ∨ sys.net.shuttingDown = true

namespace OnSocket

variable {env : Env Engine} {behaviour : Behaviour Fault (Sys Engine)}
  (onSocket : OnSocket env behaviour)

include onSocket

theorem tlsFail_reads (sys : Sys Engine) :
    behaviour.Ends (EventLoop.tlsFail env) sys fun _ next => Reads next :=
  (onSocket.toCore.tlsFail sys).mono fun _ _ => .inr

theorem tlsOnConnect_reads (sys : Sys Engine) (greeting : Greeting env sys) :
    behaviour.Ends (EventLoop.tlsOnConnect env) sys fun _ next => Reads next := by
  refine (onSocket.setTls _ sys greeting).bind fun _ first greeting => ?_
  apply Behaviour.Ends.get_bind
  refine Behaviour.Ends.ite (fun _ => onSocket.toCore.throw (by decide)) fun _ => ?_
  refine (onSocket.setTls _ first greeting).bind fun _ second greeting => ?_
  refine Behaviour.Ends.ite (fun _ => onSocket.tlsFail_reads second) fun _ => ?_
  apply Behaviour.Ends.get_bind
  refine (onSocket.setTls _ second greeting).bind fun _ third greeting => ?_
  refine Behaviour.Ends.ite (fun _ => onSocket.tlsFail_reads third) fun _ => ?_
  apply Behaviour.Ends.step rfl (onSocket.reads third greeting.fresh.2)
  refine Behaviour.Ends.mono (onSocket.toClosed.along fun closed =>
    closed.doSslHandshake _ greeting.reads.fresh) ?_
  rintro _ next ⟨-, change⟩
  exact .inl change.reading

theorem onConnect_reads (sys : Sys Engine) (greeting : Greeting env sys) :
    behaviour.Ends (EventLoop.onConnect env) sys fun _ next => Reads next := by
  refine Behaviour.Ends.ite (fun _ => onSocket.tlsOnConnect_reads sys greeting) fun _ => ?_
  refine Behaviour.Ends.bind (onSocket.toClosed.along fun closed =>
    closed.netOnConnect none sys greeting.fresh) ?_
  rintro _ next ⟨fresh, -⟩
  exact ⟨onSocket.reads next fresh.2, .inl rfl⟩

end OnSocket

/-! ## Callbacks -/

/-- libuv would accept a resolve and a connect request. -/
def Serves (sys : Sys Engine) : Prop :=
  sys.uv.acceptsResolve = true ∧ sys.uv.acceptsConnect = true

section Callbacks

variable {env : Env Engine} {sys : Sys Engine} (attached : Attached env sys)
  (waiting : Waiting sys) (serves : Serves sys)

/-- An error leaves the pool idle, so nothing has to be dialled any more. -/
theorem waits_failed (err : Bytes) {update : NetInterface → NetInterface}
    (still : ∀ net, (update net).shuttingDown = net.shuttingDown)
    (resolving : ∀ net : NetInterface, net.rResolv = sys.net.rResolv →
      (update net).rResolv = sys.uv.dns) (watched : Watched True False sys) :
    Waits (netOnError env (doShutdown env) err >>= fun _ => setNet update) sys := by
  have onSocket := watching_onSocket env True False
  have ends : (watching True False).Ends (netOnError env (doShutdown env) err) sys
      fun _ next => Along sys next :=
    onSocket.toCore.along (fun core => (core.netOnError core.doShutdown err).within) sys
  rw [Waits, ensures_bind]
  refine ((watched.runs ends).and (netOnError_idle env _ err sys)).imp ?_ fun _ _ => trivial
  rintro _ next ⟨⟨after, along⟩, idle⟩
  exact
    { awake := fun busy => absurd idle busy
      reading := fun connected => by simpa [still] using after.reading connected
      shutting := fun pending => by simpa [still] using after.shutting pending
      resolving := .inr ((resolving next.net along.steady.rResolv).trans along.steady.dns.symm) }

include attached waiting serves

theorem waits_onHeartbeat : Waits (onHeartbeat env) sys := by
  unfold onHeartbeat
  rw [Waits, ensures_bind, ensures_get, ensures_ite]
  constructor
  · intro connected
    have timeouts := waiting.waits ((watching_onSocket env False False).checkCallTimeouts sys attached)
    rw [ensures_bind]
    refine timeouts.mono fun _ next waiting => ?_
    rw [ensures_ite]
    exact ⟨fun other => absurd connected other.1, fun _ => waiting⟩
  · intro _
    rw [ensures_ite]
    refine ⟨fun _ => ?_, fun _ => waiting⟩
    unfold dialWhenIdle
    rw [ensures_bind, ensures_get, ensures_ite]
    refine ⟨fun _ => ?_, fun _ => waiting⟩
    exact ensures_poolDoConnect.mpr
      ⟨fun _ => trivial, fun _ =>
        { waiting with
          awake := fun _ => .inr (.inl serves.1)
          resolving := .inr serves.1.symm }⟩

omit attached in
theorem waits_onDnsResolvedSt (status : Int) (res : List AddrInfo) (rand : Nat) :
    Waits (onDnsResolvedSt env status res rand) sys := by
  have watched : Watched True False { sys with uv := { sys.uv with dns := false } } :=
    ⟨fun _ => .inl trivial, waiting.reading, waiting.shutting, .inl trivial⟩
  have failed : ∀ err, Waits (netOnError env (doShutdown env) err >>= fun _ =>
      setNet fun net => { net with rResolv := false })
      { sys with uv := { sys.uv with dns := false } } :=
    fun err => waits_failed err (fun _ => rfl) (fun _ _ => rfl) watched
  unfold onDnsResolvedSt
  rw [Waits, ensures_bind_of_run rfl]
  refine (ensures_ite ..).mpr ⟨fun _ => ?_, fun _ => failed _⟩
  unfold onDnsResolved
  split
  · exact failed _
  · refine (ensures_bind ..).mpr (ensures_openSocket.mpr
      ⟨fun _ => trivial, fun _ _ => trivial, fun _ _ => ?_⟩)
    exact ⟨fun _ => .inr (.inr (.inl serves.2)), fun connected => (nomatch connected),
      waiting.shutting, .inr rfl⟩

omit serves

theorem waits_onConnnectSt (status : Int) (due : sys.uv.conn = true) :
    Waits (onConnnectSt env status) sys := by
  obtain ⟨-, greets⟩ := Attached.answered attached due (decide (status = 0))
  unfold onConnnectSt
  rw [Waits, ensures_bind_of_run rfl]
  refine (ensures_ite ..).mpr ⟨fun ok => ?_, fun failed => ?_⟩
  · have greeting := greets (decide_eq_true ok)
    have watched : Watched False True
        { sys with uv := { sys.uv with conn := false, connected := decide (status = 0) } } :=
      ⟨fun _ => .inr (.inr (.inr (decide_eq_true ok))), fun _ => .inl trivial, waiting.shutting,
        waiting.resolving⟩
    have ends := (watching_onSocket env False True).onConnect_reads _ greeting
    refine (ensures_bind ..).mpr ((watched.runs ends).mono ?_)
    rintro _ next ⟨after, reads⟩
    exact ⟨after.awake, fun _ => .inr reads, after.shutting, after.resolving⟩
  · apply waits_failed
    · exact fun _ => rfl
    · exact fun _ same => same.trans (waiting.resolving.resolve_left id)
    · refine ⟨fun _ => .inl trivial, fun connected => ?_, waiting.shutting, .inl trivial⟩
      exact absurd (of_decide_eq_true connected) failed

theorem waits_onShutdownSt (due : sys.uv.shutdown = true) : Waits onShutdownSt sys := by
  obtain ⟨connected, down⟩ := attached.shutting due
  refine ensures_onShutdownSt.mpr ?_
  exact ⟨fun _ => .inr (.inr (.inr connected)), fun _ => .inr (.inr down), fun _ => down,
    waiting.resolving⟩

theorem waits_onSocketClosed (due : sys.uv.closing = true) : Waits (onSocketClosed env) sys := by
  obtain ⟨-, -, shutdown, -⟩ := attached.closing due
  apply (ensures_onSocketClosed env).mpr
  refine ⟨fun busy => absurd rfl busy, fun connected => (nomatch connected), fun pending => ?_,
    waiting.resolving⟩
  exact absurd (shutdown.symm.trans pending) (by decide)

include serves in
theorem waits_callback (event : Event) (enabled : Enabled sys event) :
    Waits (callback env event) sys := by
  have onSocket := watching_onSocket env False False
  cases event with
  | heartbeat => exact waits_onHeartbeat attached waiting serves
  | dnsResolved status res rand => exact waits_onDnsResolvedSt waiting serves status res rand
  | connected status => exact waits_onConnnectSt attached waiting status enabled
  | read chunk => exact waiting.waits (onSocket.onSocketReadSt chunk sys attached enabled.1)
  | readError error => exact waiting.waits (onSocket.onSocketError error sys attached)
  | written idx status =>
      refine waiting.waits (onSocket.onSocketWriteSt idx status sys (fun _ _ _ => id) ?_ ?_ attached)
      · exact fun waiting => { waiting with }
      · exact fun _ _ waiting => { waiting with }
  | shutDown => exact waits_onShutdownSt attached waiting enabled
  | closed => exact waits_onSocketClosed attached waiting enabled.1
  | foundResult res =>
      exact waiting.waits (onSocket.doSendResult res sys (fun _ waiting => { waiting with }) attached)

end Callbacks

/-! ## Runs -/

theorem Initial.waiting {sys : Sys Engine} (initial : Initial sys) : Waiting sys := by
  obtain ⟨dns, -, connected, -, shutdown, -, -⟩ := initial.noCallback
  exact
    { awake := fun busy => absurd initial.poolIdle busy
      reading := by simp [connected]
      shutting := by simp [shutdown]
      resolving := .inr (initial.resolv.trans dns.symm) }

/-- Runs in which every resolve and every connect request is accepted. -/
abbrev ReachableServed (env : Env Engine) (sys : Sys Engine) : Prop :=
  (machine env).ReachableWhen
    (fun _ input _ => input.acceptsResolve = true ∧ input.acceptsConnect = true) sys

theorem reachable_waiting {env : Env Engine} {sys : Sys Engine}
    (reachable : ReachableServed env sys) : Waiting sys := by
  have initially : ∀ start, (machine env).Initial start → Waiting start :=
    fun _ initial => Initial.waiting initial
  apply reachable.invariant initially
  intro before input next reached waiting stepped serves
  obtain ⟨enabled, handled⟩ := step_enabled stepped
  have attached : Attached env (before.answering input) := { reachable_attached reached with }
  have still : Waiting (before.answering input) := { waiting with }
  have waits := waits_callback attached still serves input.event (Enabled.answering enabled)
  exact waits.of_run (run_of_handle handled)

/-- An idle pool is dialled by a heartbeat more than ten seconds after the last attempt. -/
theorem heartbeat_dials (env : Env Engine) {sys : Sys Engine}
    (idle : sys.app.pool.state = .idle)
    (due : sys.app.now - sys.app.pool.lastConnectAttempt > 10000)
    (free : sys.net.rResolv = false) :
    Ensures (callback env .heartbeat) sys (fun _ next => next = sys.dialled) fun _ => False := by
  change Ensures (onHeartbeat env) sys _ _
  unfold onHeartbeat
  rw [ensures_bind, ensures_get, ensures_ite]
  refine ⟨fun connected => absurd (idle.symm.trans connected) (by decide), fun _ => ?_⟩
  rw [ensures_ite]
  refine ⟨fun _ => ?_, fun busy => absurd (by simp [idle]) busy⟩
  unfold dialWhenIdle
  rw [ensures_bind, ensures_get, ensures_ite]
  refine ⟨fun _ => ?_, fun early => absurd ⟨idle, due⟩ early⟩
  refine ensures_poolDoConnect.mpr ⟨fun taken => ?_, fun _ => rfl⟩
  rw [free] at taken
  cases taken

/-- A callback of libuv is to come: of a request, or of a stream that is read and not yet being
shut down. -/
def Pending (sys : Sys Engine) : Prop :=
  sys.uv.dns = true ∨ sys.uv.conn = true ∨
    sys.uv.reading = true ∧ sys.net.shuttingDown = false ∨
    sys.uv.shutdown = true ∨ sys.uv.closing = true

instance (sys : Sys Engine) : Decidable (Pending sys) := by
  unfold Pending
  infer_instance

/-- In every run in which every resolve, connect and shutdown request was accepted, the pool
waits for a callback of libuv, or it is idle and the first heartbeat more than ten seconds after
its last attempt dials it. -/
theorem never_stuck (env : Env Engine) (sys : Sys Engine)
    (reachable : ReachableServed env sys) (never : NeverRefused sys.app.log) :
    Pending sys ∨
      sys.app.pool.state = .idle ∧
        ∀ input : Input, input.event = .heartbeat →
          input.now - sys.app.pool.lastConnectAttempt > 10000 →
            (machine env).Step sys input (sys.answering input).dialled := by
  have waiting := reachable_waiting reachable
  have accompanied := reachable_accompanied env sys reachable.reachable never
  have resolving := waiting.resolving.resolve_left id
  by_cases dns : sys.uv.dns = true
  case pos => exact .inl (.inl dns)
  case neg =>
    have free : sys.net.rResolv = false := resolving.trans (by simpa using dns)
    by_cases idle : sys.app.pool.state = .idle
    case pos =>
      refine .inr ⟨idle, fun input heartbeat due => ?_⟩
      have still : (sys.answering input).app.pool.state = .idle := idle
      obtain ⟨_, next, ran, rfl⟩ := (heartbeat_dials env still due free).exists_run
      rw [← heartbeat] at ran
      have enabled : Enabled sys input.event := by
        rw [heartbeat]
        trivial
      change (if Enabled sys input.event then (handle env sys input).toOption else none) = _
      rw [if_pos enabled, handle, ran]
      rfl
    case neg =>
      left
      rcases (waiting.awake idle).resolve_left id with pending | pending | connected
      · exact .inl pending
      · exact .inr (.inl pending)
      · by_cases down : sys.net.shuttingDown = true
        · exact .inr (.inr (.inr (accompanied.closing down)))
        · have reading := ((waiting.reading connected).resolve_left id).resolve_right down
          exact .inr (.inr (.inl ⟨reading, by simpa using down⟩))

/-- The connection of the first job is lost and closed, and the pool can be dialled again. -/
theorem never_stuck_lostSession :
    ∃ sys, ReachableServed .sample sys ∧ ¬Pending sys ∧
      ∀ input : Input, input.event = .heartbeat →
        input.now - sys.app.pool.lastConnectAttempt > 10000 →
          (machine .sample).Step sys input (sys.answering input).dialled := by
  obtain ⟨reachable, never, quiet⟩ :=
    Machine.execute_reachableWhen Sys.start_initial (step .sample)
      (fun _ input => input.acceptsResolve = true ∧ input.acceptsConnect = true) lostSession
      (fun sys => NeverRefused sys.app.log ∧ ¬Pending sys) (by decide +kernel)
  refine ⟨_, reachable, quiet, ?_⟩
  exact ((never_stuck .sample _ reachable never).resolve_left quiet).2

/-! ## Refused requests -/

/-- The pool is connecting, and libuv has no callback for it. -/
structure Abandoned (sys : Sys Engine) : Prop where
  connecting : sys.app.pool.state = .connecting
  dns : sys.uv.dns = false
  conn : sys.uv.conn = false
  reading : sys.uv.reading = false
  shutdown : sys.uv.shutdown = false
  closing : sys.uv.closing = false
  writes : ∀ idx, sys.uv.writes idx = false

/-- Only heartbeats and found shares are left, and neither does anything to a connecting pool. -/
theorem Abandoned.step {env : Env Engine} {sys next : Sys Engine} {input : Input}
    (abandoned : Abandoned sys) (stepped : (machine env).Step sys input next) : Abandoned next := by
  obtain ⟨enabled, handled⟩ := step_enabled stepped
  have still : Abandoned (sys.answering input) := { abandoned with }
  have ran := run_of_handle handled
  cases event : input.event with
  | heartbeat =>
      rw [event] at ran
      have idles : Ensures (callback env .heartbeat) (sys.answering input)
          (fun _ next => next = sys.answering input) fun _ => False := by
        change Ensures (onHeartbeat env) _ _ _
        unfold onHeartbeat
        rw [ensures_bind, ensures_get, still.connecting]
        exact rfl
      exact idles.of_run ran ▸ still
  | foundResult res =>
      rw [event] at ran
      have ignores : Ensures (callback env (.foundResult res)) (sys.answering input)
          (fun _ next => next = sys.answering input) fun _ => False := by
        change Ensures (doSendResult env res) _ _ _
        unfold doSendResult doSendResultThrough
        rw [ensures_bind, ensures_get, if_pos (by simp [still.connecting])]
        exact rfl
      exact ignores.of_run ran ▸ still
  | dnsResolved status res rand =>
      rw [event] at enabled
      exact absurd (abandoned.dns.symm.trans enabled) (by decide)
  | connected status =>
      rw [event] at enabled
      exact absurd (abandoned.conn.symm.trans enabled) (by decide)
  | read chunk | readError error =>
      rw [event] at enabled
      exact absurd (abandoned.reading.symm.trans enabled.1) (by decide)
  | written idx status =>
      rw [event] at enabled
      exact absurd ((abandoned.writes idx).symm.trans enabled) (by decide)
  | shutDown =>
      rw [event] at enabled
      exact absurd (abandoned.shutdown.symm.trans enabled) (by decide)
  | closed =>
      rw [event] at enabled
      exact absurd (abandoned.closing.symm.trans enabled.1) (by decide)

theorem Abandoned.forever {env : Env Engine} {sys next : Sys Engine} (abandoned : Abandoned sys)
    (later : (machine env).Steps sys next) :
    Abandoned next := by
  induction later with
  | refl => exact abandoned
  | tail _ last inductionHypothesis =>
      obtain ⟨input, stepped, -⟩ := last
      exact inductionHypothesis.step stepped

instance (sys : Sys Engine) : Decidable (Abandoned sys) :=
  decidable_of_iff
    (sys.app.pool.state = .connecting ∧ sys.uv.dns = false ∧ sys.uv.conn = false ∧
      sys.uv.reading = false ∧ sys.uv.shutdown = false ∧ sys.uv.closing = false ∧
      ∀ idx, sys.uv.writes idx = false)
    ⟨fun ⟨connecting, dns, conn, reading, shutdown, closing, writes⟩ =>
        ⟨connecting, dns, conn, reading, shutdown, closing, writes⟩,
      fun ⟨connecting, dns, conn, reading, shutdown, closing, writes⟩ =>
        ⟨connecting, dns, conn, reading, shutdown, closing, writes⟩⟩

/-- The address of the pool is resolved, and there is no route to it. -/
def unroutedSession : List Input :=
  [Event.heartbeat.at 20000,
    { (Event.dnsResolved 0 [⟨.inet, []⟩] 0).at 20010 with acceptsConnect := false }]

/-- No heartbeat dials a pool again whose connect request was refused. -/
theorem abandoned_after_unroutedSession :
    ∃ sys, (machine .sample).Reachable sys ∧
      ∀ next, (machine .sample).Steps sys next → Abandoned next := by
  have executed := Machine.execute_reachable Sys.start_initial (step .sample) unroutedSession
    Abandoned (by decide +kernel)
  exact ⟨_, executed.1, fun _ later => executed.2.forever later⟩

end EpicMiner.EventLoop
