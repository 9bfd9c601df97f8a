import EpicMiner.Library.Machine
import EpicMiner.EventLoop.Receive

/-!
Owns the callbacks that libuv runs, the heartbeat, and the event loop as a
machine: its inputs are the events libuv may deliver together with the answers
to the calls made while one is handled.
-/

namespace EpicMiner.EventLoop

open EpicMiner.Library
open EpicMiner.Data

variable {Engine : Type} (env : Env Engine)

/-! ## Connecting -/

inductive AddressFamily where
  | inet
  | inet6
  | other
deriving DecidableEq, Repr

structure AddrInfo where
  aiFamily : AddressFamily
  aiAddr : Bytes

/-- The record `on_dns_resolved` connects to, IPv4 before IPv6; `rand` is the
random number it draws. -/
def finalAddr (res : List AddrInfo) (rand : Nat) : Option AddrInfo :=
  let ipv4 := res.filter fun info => info.aiFamily = .inet
  let ipv6 := res.filter fun info => info.aiFamily = .inet6
  if ipv4 = [] ∧ ipv6 = [] then none
  else if ipv6 = [] then ipv4[rand % ipv4.length]?
  else if ipv4 = [] then ipv6[rand % ipv6.length]?
  else ipv4[rand % ipv4.length]?

/-- The return value of `uv_getaddrinfo` is not looked at by the code. -/
def netDoConnect : Loop Engine Unit := do
  record (.dial (!(← get).net.hSock))
  if (← get).net.rResolv then
    throw (.assertion .resolvIdle)
  else
    setNet fun net => { net with rResolv := true }
    setUv fun uv => { uv with dns := uv.acceptsResolve }

/-- The end of `net_interface::on_dns_resolved`, for the address chosen. The return value of
`uv_tcp_connect` is not looked at by the code. -/
def openSocket : Loop Engine Unit := do
  if (← get).net.hSock then
    throw (.assertion .sockIdle)
  else
    setNet fun net => { net with hSock := true }
    if (← get).net.rConn then
      throw (.assertion .connIdle)
    else
      setNet fun net => { net with rConn := true }
      setUv fun uv => { uv with conn := uv.acceptsConnect, connected := false }

def onDnsResolved (res : List AddrInfo) (rand : Nat) : Loop Engine Unit :=
  match finalAddr res rand with
  | none => netOnError env (doShutdown env) (ascii "DNS Error: No IPv4 or IPv6 records")
  | some _ => openSocket

/-- `on_dns_resolved_st`, with `on_dns_error`. -/
def onDnsResolvedSt (status : Int) (res : List AddrInfo) (rand : Nat) : Loop Engine Unit := do
  setUv fun uv => { uv with dns := false }
  if status = 0 then
    onDnsResolved env res rand
  else
    netOnError env (doShutdown env) (env.uvStrerror status)
  setNet fun net => { net with rResolv := false }

def tlsOnConnect : Loop Engine Unit := do
  setTls fun tls => { tls with handshakeComplete := false }
  let tls := (← get).tls
  if tls.ssl || tls.bio then
    throw (.assertion .tlsIdle)
  else
    let (session, engine) := env.openssl.newSession tls.engine
    setTls fun tls => { tls with engine := engine, ssl := session }
    if session = false then
      tlsFail env
    else
      let (pair, engine) := env.openssl.newBioPair (← get).tls.engine
      setTls fun tls => { tls with engine := engine, bio := pair }
      if pair = false then
        tlsFail env
      else
        setUv fun uv => { uv with reading := true }
        doSslHandshake env

def onConnect : Loop Engine Unit := do
  if env.useTls then
    tlsOnConnect env
  else
    netOnConnect env none
    setUv fun uv => { uv with reading := true }

/-- `on_connnect_st`, with `on_connect_error`. -/
def onConnnectSt (status : Int) : Loop Engine Unit := do
  setUv fun uv => { uv with conn := false, connected := status = 0 }
  if status = 0 then
    onConnect env
  else
    netOnError env (doShutdown env) (env.uvStrerror status)
  setNet fun net => { net with rConn := false }

/-! ## Reading and writing -/

def uvEof : Int := -4095

def onSocketError (error : Int) : Loop Engine Unit := do
  if error = uvEof ∧ (← get).net.shuttingDown = false then
    doShutdown env
  else
    netOnError env (doShutdown env) (env.uvStrerror error)
    doShutdown env

/-- `on_socket_read_st` with bytes that libuv stored behind the unread ones. -/
def onSocketReadSt (chunk : Bytes) : Loop Engine Unit := do
  setNet fun net =>
    { net with
      recvBuf := net.recvBuf.write net.recvPos chunk
      recvPos := net.recvPos + chunk.length }
  if ← onSocketRead env then
    return
  else
    doShutdown env

/-- `on_socket_write_st` and `on_socket_write_complete`. -/
def onSocketWriteSt (idx : Fin 4) (status : Int) : Loop Engine Unit := do
  setUv fun uv => { uv with writes := Function.update uv.writes idx false }
  if status = 0 then
    if ((← get).net.sendBufs idx).active = false then
      throw (.assertion .sendActive)
    else
      setSlot idx fun slot => { slot with rSend := false, active := false }
  else
    onSocketError env status

/-! ## Closing -/

/-- `on_shutdown_st`, with `do_close_socket`. -/
def onShutdownSt : Loop Engine Unit := do
  setUv fun uv => { uv with shutdown := false, closing := true, reading := false }
  setNet fun net => { net with rShutdown := false }

def netOnClose : AppProgram Unit := do
  modify (App.setPool fun pool => { pool with state := .idle })
  resetJob
  onPoolDisconnect

def onSocketClosed : Loop Engine Unit := do
  setUv fun uv => { uv with closing := false, connected := false }
  if env.useTls then
    setTls fun tls => { tls with ssl := false, bio := false, ptPos := 0 }
  else
    pure ()
  setNet fun net =>
    { net with
      hSock := false
      recvPos := 0
      sendBufs := fun idx => { net.sendBufs idx with active := false }
      shuttingDown := false }
  liftApp netOnClose
  record .closed

/-! ## Heartbeat -/

def checkCallTimeouts : Loop Engine Unit := do
  let app := (← get).app
  if app.pool.calls.entries.any fun mp =>
      mp.type ≠ .invalid && decide (app.now - mp.timeMade > 10000) then
    netOnError env (doShutdown env) (ascii "call timeout")
  else
    return

def poolDoConnect : Loop Engine Unit := do
  liftApp (modify fun app => app.setPool fun pool =>
    { pool with
      state := .connecting
      calls := pool.calls.flushCallMap
      lastConnectAttempt := app.now })
  netDoConnect

/-- The dialling half of `on_heartbeat`: an idle pool is dialled when its last
attempt is more than ten seconds old. -/
def dialWhenIdle : Loop Engine Unit := do
  let app := (← get).app
  if app.pool.state = .idle ∧ app.now - app.pool.lastConnectAttempt > 10000 then
    poolDoConnect
  else
    return

/-- `executor::on_heartbeat` for the one pool that `run` creates. The state is
read once for the counters, before the timeout check may change it. -/
def onHeartbeat : Loop Engine Unit := do
  let state := (← get).app.pool.state
  if state = .connected then
    checkCallTimeouts env
  else
    pure ()
  if state ≠ .connected ∧ state ≠ .connecting then
    dialWhenIdle
  else
    return

/-! ## The machine -/

/-- What libuv may deliver. -/
inductive Event where
  | heartbeat
  | dnsResolved (status : Int) (res : List AddrInfo) (rand : Nat)
  | connected (status : Int)
  /-- `nread > 0`, with the bytes. -/
  | read (chunk : Bytes)
  /-- `nread < 0`. -/
  | readError (error : Int)
  | written (idx : Fin 4) (status : Int)
  | shutDown
  | closed
  | foundResult (res : MinerResult)

structure Input where
  event : Event
  now : Int
  nowSeconds : Int
  uninitialised : UInt32
  acceptsResolve : Bool
  acceptsConnect : Bool
  acceptsShutdown : Bool
  acceptsWrite : Fin 4 → Bool

/-- An event at a time in milliseconds, with every request accepted. -/
def Event.at (event : Event) (now : Int) : Input where
  event := event
  now := now
  nowSeconds := now / 1000
  uninitialised := 0
  acceptsResolve := true
  acceptsConnect := true
  acceptsShutdown := true
  acceptsWrite := fun _ => true

def callback : Event → Loop Engine Unit
  | .heartbeat => onHeartbeat env
  | .dnsResolved status res rand => onDnsResolvedSt env status res rand
  | .connected status => onConnnectSt env status
  | .read chunk => onSocketReadSt env chunk
  | .readError error => onSocketError env error
  | .written idx status => onSocketWriteSt env idx status
  | .shutDown => onShutdownSt
  | .closed => onSocketClosed env
  | .foundResult res => doSendResult env res

/-- The state with the answers of an input in place. -/
def Sys.answering (sys : Sys Engine) (input : Input) : Sys Engine :=
  { sys with
    app :=
      { sys.app with
        now := input.now
        nowSeconds := input.nowSeconds
        uninitialised := input.uninitialised }
    uv :=
      { sys.uv with
        acceptsResolve := input.acceptsResolve
        acceptsConnect := input.acceptsConnect
        acceptsShutdown := input.acceptsShutdown
        acceptsWrite := input.acceptsWrite } }

/-- libuv delivers an event only when it is due: callbacks of requests it holds,
reads that fit the offered buffer while it reads, and the close callback after
the callbacks of all other requests on the stream. -/
def Enabled (sys : Sys Engine) : Event → Prop
  | .heartbeat => True
  | .dnsResolved _ _ _ => sys.uv.dns = true
  | .connected _ => sys.uv.conn = true
  | .read chunk =>
      sys.uv.reading = true ∧ 0 < chunk.length ∧ sys.net.recvPos + chunk.length ≤ 4096
  | .readError error => sys.uv.reading = true ∧ error < 0
  | .written idx _ => sys.uv.writes idx = true
  | .shutDown => sys.uv.shutdown = true
  | .closed => sys.uv.closing = true ∧ sys.uv.conn = false ∧ ∀ idx, sys.uv.writes idx = false
  | .foundResult _ => True

instance (sys : Sys Engine) (event : Event) : Decidable (Enabled sys event) := by
  cases event <;> unfold Enabled <;> infer_instance

def handle (sys : Sys Engine) (input : Input) : Except Fault (Sys Engine) :=
  match (callback env input.event).run (sys.answering input) with
  | .error fault => .error fault
  | .ok (_, next) => .ok next

/-- The state in which `executor::run` enters the loop. Members without an
initialiser hold anything. -/
structure Initial (sys : Sys Engine) : Prop where
  poolIdle : sys.app.pool.state = .idle
  neverDialled : sys.app.pool.lastConnectAttempt = 0
  jobReset : sys.app.pool.myJob.reset = sys.app.pool.myJob
  jobIdle : sys.app.executor.published = .initial
  countersZero : sys.app.executor.poolCtr = .zero
  logEmpty : sys.app.log = []
  sock : sys.net.hSock = false
  conn : sys.net.rConn = false
  resolv : sys.net.rResolv = false
  shutdown : sys.net.rShutdown = false
  sends : ∀ idx, (sys.net.sendBufs idx).rSend = false
  nothingReceived : sys.net.recvPos = 0
  notShuttingDown : sys.net.shuttingDown = false
  noSession : sys.tls.ssl = false ∧ sys.tls.bio = false ∧ sys.tls.ptPos = 0
  noCallback : sys.uv.dns = false ∧ sys.uv.conn = false ∧ sys.uv.connected = false ∧
    sys.uv.reading = false ∧ sys.uv.shutdown = false ∧ sys.uv.closing = false ∧
    ∀ idx, sys.uv.writes idx = false

/-- The start of a plain connection over zeroed memory. -/
def Sys.start : Sys Unit where
  app := .start
  net :=
    { hSock := false
      rConn := false
      rResolv := false
      rShutdown := false
      sendBufs := fun _ => { rSend := false, data := default, active := false }
      recvBuf := default
      recvPos := 0
      shuttingDown := false }
  tls :=
    { ssl := false
      bio := false
      handshakeComplete := false
      ptBuf := default
      ptPos := 0
      engine := () }
  uv :=
    { dns := false
      conn := false
      connected := false
      reading := false
      shutdown := false
      closing := false
      writes := fun _ => false
      acceptsResolve := false
      acceptsConnect := false
      acceptsShutdown := false
      acceptsWrite := fun _ => false }

theorem Sys.start_initial : Initial Sys.start := by
  constructor
  case noSession => exact ⟨rfl, rfl, rfl⟩
  case noCallback => exact ⟨rfl, rfl, rfl, rfl, rfl, rfl, fun _ => rfl⟩
  case sends => exact fun _ => rfl
  all_goals rfl

/-- One step of the event loop: an enabled event, handled without a fault. -/
def step (sys : Sys Engine) (input : Input) : Option (Sys Engine) :=
  if Enabled sys input.event then (handle env sys input).toOption else none

def machine : Machine (Sys Engine) Input :=
  .ofPartial Initial (step env)

end EpicMiner.EventLoop
