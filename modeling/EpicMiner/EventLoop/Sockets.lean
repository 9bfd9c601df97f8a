import EpicMiner.EventLoop.Network

/-!
Owns the sending half of the network layer: shutting a connection down, the
four send slots, the TLS flush, and the login and submit lines of the pool.

`do_shutdown` is virtual and is called back from the error path of the pool, so
the functions below it take it as the argument `doShutdown`. The TLS override
calls itself through that path; the argument `depth` is the stack it has left.
`do_socket_write` is virtual too: the calls of the pool take it as an argument, and
are what the code makes of them with the override of the TLS interface.
-/

namespace EpicMiner.EventLoop

open EpicMiner.Library
open EpicMiner.Data

variable {Engine : Type} (env : Env Engine)

/-! ## Shutdown of a plain connection -/

/-- `uv_shutdown`, refused on a stream that is not connected. -/
def uvShutdown : Loop Engine Unit := do
  let uv := (← get).uv
  let accepted := uv.acceptsShutdown && uv.connected
  setUv fun uv => { uv with shutdown := uv.shutdown || accepted }
  record (.uvShutdown accepted)

def netDoShutdown : Loop Engine Unit := do
  record .shutdownCalled
  if (← get).net.shuttingDown then
    return
  else
    setNet fun net => { net with shuttingDown := true }
    if (← get).net.rShutdown then
      throw (.assertion .shutdownIdle)
    else
      setNet fun net => { net with rShutdown := true }
      uvShutdown

/-! ## Errors -/

/-- `pool::net_on_error` after its `do_disconnect`. -/
def dropJob : Loop Engine Unit := do
  setState .idle
  liftApp resetJob

def netOnError (doShutdown : Loop Engine Unit) (err : Bytes) : Loop Engine Unit := do
  liftApp (logError (poolErrorText env.config err))
  doShutdown
  dropJob

def getTlsError (doShutdown : Loop Engine Unit) : Loop Engine Unit := do
  let (text, engine) := env.openssl.errorText (← get).tls.engine
  setTls fun tls => { tls with engine := engine }
  netOnError env doShutdown text

/-! ## Send slots -/

/-- `get_send_buffer`: the slot taken, none for `nullptr`. -/
def getSendBuffer : Loop Engine (Option (Fin 4)) := do
  let net := (← get).net
  match (List.finRange 4).find? fun idx => !(net.sendBufs idx).active with
  | none => return none
  | some idx =>
      setSlot idx fun slot => { slot with active := true }
      return some idx

/-- `uv_write` on a slot. Its return value is not looked at by the code. -/
def uvWrite (idx : Fin 4) (len : Nat) : Loop Engine Unit := do
  let sys ← get
  let accepted := sys.uv.acceptsWrite idx
  setUv fun uv => { uv with writes := Function.update uv.writes idx accepted }
  record (.uvWrite idx ((sys.net.sendBufs idx).data.slice 0 len) len accepted)

def finalizeSocketWrite (idx : Fin 4) (len : Nat) : Loop Engine Unit := do
  if ((← get).net.sendBufs idx).active = false then
    throw (.assertion .sendActive)
  else if len = 0 then
    setSlot idx fun slot => { slot with active := false }
  else if ((← get).net.sendBufs idx).rSend then
    throw (.assertion .sendIdle)
  else
    setSlot idx fun slot => { slot with rSend := true }
    uvWrite idx len

/-- What `snprintf` stores in a buffer of `size` bytes. -/
def snprintf (size : Nat) (text : Bytes) : Bytes :=
  text.take (size - 1) ++ [0]

/-! ## TLS -/

def flushTlsPending (doShutdown : Loop Engine Unit) : Loop Engine Unit := do
  let tls := (← get).tls
  let nwrt := if tls.bio then env.openssl.bioPending tls.engine else 0
  if nwrt = 0 then
    return
  else
    match ← getSendBuffer with
    -- The null buffer comes with an uninitialised length.
    | none => throw .nullPointer
    | some idx =>
        if 2048 < nwrt then
          netOnError env doShutdown (ascii "overflow in flush_tls_pending")
          doShutdown
        else
          let (rv, data, engine) := env.openssl.bioRead (← get).tls.engine nwrt
          setTls fun tls => { tls with engine := engine }
          setSlot idx fun slot => { slot with data := slot.data.write 0 data }
          if rv ≠ nwrt then
            getTlsError env doShutdown
            doShutdown
          else
            finalizeSocketWrite idx nwrt

def tlsDoShutdown : Nat → Loop Engine Unit
  | 0 => throw .stackOverflow
  | depth + 1 => do
      record .shutdownCalled
      if (← get).net.shuttingDown then
        return
      else if (← get).tls.ssl = false then
        throw .nullPointer
      else
        setTls fun tls => { tls with engine := env.openssl.shutdown tls.engine }
        flushTlsPending env (tlsDoShutdown depth)
        netDoShutdown

/-- `do_shutdown` as the interface of the pool overrides it. -/
def doShutdown : Loop Engine Unit :=
  if env.useTls then tlsDoShutdown env env.stack else netDoShutdown

/-- The loop of `tls_interface::do_socket_write` from `offset` on. `SSL_write` is given a
pointer and a count, which nothing keeps inside the buffer. -/
def tlsWriteFrom (data : Bytes) (len : Nat) : Nat → Int → Loop Engine Unit
  | 0, _ => throw .stuckLoop
  | fuel + 1, offset =>
      if offset < len then do
        let tls := (← get).tls
        let chunk := readFrom (env.memory tls.engine) data offset (len - offset).toNat
        let (i, engine) := env.openssl.write tls.engine chunk
        setTls fun tls => { tls with engine := engine }
        if i ≤ 0 then
          getTlsError env (doShutdown env)
          doShutdown env
        else
          pure ()
        flushTlsPending env (doShutdown env)
        tlsWriteFrom data len fuel (offset + i)
      else
        return

def tlsDoSocketWrite (data : Bytes) (len : Nat) : Loop Engine Unit :=
  tlsWriteFrom env data len env.patience 0

/-! ## Lines of the pool -/

def decimal (value : UInt32) : Bytes :=
  ascii (toString value.toNat)

def loginLine (callId : UInt32) : Bytes :=
  ascii "\x7b\"method\":\"login\",\"params\":\x7b\"login\":\"" ++ cString env.config.username ++
    ascii "\",\"pass\":\"" ++ cString env.config.password ++
    ascii "\",\"rigid\":\"" ++ cString env.config.rigid ++
    ascii "\",\"agent\":\"epic_miner\"\x7d,\"id\":" ++ decimal callId ++ ascii "\x7d\n"

def submitLine (poolMinerId : Bytes) (res : MinerResult) (callId : UInt32) : Bytes :=
  ascii "\x7b\"method\":\"submit\",\"params\":\x7b\"id\":\"" ++ cString poolMinerId ++
    ascii "\",\"job_id\":\"" ++ cString res.id.cells ++
    ascii "\",\"nonce\":\"" ++ cString (bin2hex (le32 res.nonce)) ++
    ascii "\",\"result\":\"" ++ cString (bin2hex res.resHash.cells) ++
    ascii "\"\x7d,\"id\":" ++ decimal callId ++ ascii "\x7d\n"

theorem loginLine_ne_nil (callId : UInt32) : loginLine env callId ≠ [] :=
  List.append_ne_nil_of_right_ne_nil _ (by decide)

theorem submitLine_ne_nil (poolMinerId : Bytes) (res : MinerResult) (callId : UInt32) :
    submitLine poolMinerId res callId ≠ [] :=
  List.append_ne_nil_of_right_ne_nil _ (by decide)

/-- The two ways in which a formatted line leaves the pool. The length handed on
is the one `snprintf` returns, that of the whole line. -/
def sendLineThrough (doSocketWrite : Bytes → Nat → Loop Engine Unit) (line : Bytes) :
    Loop Engine Unit := do
  if env.useTls then
    doSocketWrite (snprintf 1024 line) line.length
  else
    match ← getSendBuffer with
    | none => throw .nullPointer
    | some idx =>
        setSlot idx fun slot => { slot with data := slot.data.write 0 (snprintf 2048 line) }
        finalizeSocketWrite idx line.length

def sendLine (line : Bytes) : Loop Engine Unit :=
  sendLineThrough env (tlsDoSocketWrite env) line

/-- `register_call` as its callers use it: the returned flag is dropped, and the
id is the out parameter, uninitialised before the call. -/
def registerCall (type : CallTypes) (minerId : UInt32) : AppProgram UInt32 := do
  let app ← get
  let (_, callId, calls) := app.pool.calls.registerCall type app.uninitialised app.now minerId
  modify (App.setPool fun pool => { pool with calls := calls })
  return callId

def prepareLogin : AppProgram UInt32 := do
  let callId ← registerCall .login invalidMinerId
  emit (.login callId)
  return callId

def doLoginCallThrough (doSocketWrite : Bytes → Nat → Loop Engine Unit) : Loop Engine Unit := do
  let callId ← liftApp prepareLogin
  sendLineThrough env doSocketWrite (loginLine env callId)

def doLoginCall : Loop Engine Unit :=
  doLoginCallThrough env (tlsDoSocketWrite env)

def prepareResult (res : MinerResult) : AppProgram UInt32 := do
  emit (.share res)
  let callId ← registerCall .result res.minerId
  modify fun app => app.setPool fun pool =>
    { pool with pingCallId := callId, pingTimestamp := app.now }
  emit (.submit callId res)
  return callId

def doSendResultThrough (doSocketWrite : Bytes → Nat → Loop Engine Unit) (res : MinerResult) :
    Loop Engine Unit := do
  if (← get).app.pool.state ≠ .hasJob then
    return
  else
    let callId ← liftApp (prepareResult res)
    sendLineThrough env doSocketWrite (submitLine (← get).app.pool.poolMinerId res callId)

def doSendResult (res : MinerResult) : Loop Engine Unit :=
  doSendResultThrough env (tlsDoSocketWrite env) res

end EpicMiner.EventLoop
