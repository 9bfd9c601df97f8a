import EpicMiner.EventLoop.Sockets

/-!
Owns the receiving half of the network layer: the consume loop, the line search
and document hand-over of the pool, the TLS consumer and the TLS handshake.
-/

namespace EpicMiner.EventLoop

open EpicMiner.Library
open EpicMiner.Data

/-! ## Consume loop -/

section ConsumeLoop

variable {σ : Type} {size : Nat}

/-- The rounds of `consume_loop` from `consumed` on. A consumer is given the
unconsumed bytes and returns its answer and what it leaves in their place. The
result says whether no consumer call failed, with the bytes consumed. -/
def consumeFrom (consume : Bytes → Program Fault σ (Int × Bytes)) (recvPos : Nat) :
    Nat → Buffer size → Nat → Program Fault σ (Bool × Buffer size × Nat)
  | 0, _, _ => throw .stuckLoop
  | fuel + 1, buffer, consumed => do
      let (cd, left) ← consume (buffer.slice consumed (recvPos - consumed))
      let buffer := buffer.write consumed left
      if cd < 0 then
        return (false, buffer, consumed)
      else if recvPos - consumed < cd.toNat then
        throw (.assertion .consumedFits)
      else if cd = 0 ∨ recvPos = consumed + cd.toNat then
        return (true, buffer, consumed + cd.toNat)
      else
        consumeFrom consume recvPos fuel buffer (consumed + cd.toNat)

/-- `net_interface::consume_loop`. Every further round has consumed at least one
byte more, so `recvPos + 1` rounds are enough. -/
def consumeLoop (consume : Bytes → Program Fault σ (Int × Bytes)) (buffer : Buffer size)
    (recvPos : Nat) : Program Fault σ (Bool × Buffer size × Nat) := do
  let (good, buffer, consumed) ← consumeFrom consume recvPos (recvPos + 1) buffer 0
  if good then
    if consumed < recvPos ∧ 0 < consumed then
      -- memmove of the rest
      return (true, buffer.write 0 (buffer.slice consumed (recvPos - consumed)), recvPos - consumed)
    else
      return (true, buffer, recvPos - consumed)
  else
    return (false, buffer, recvPos)

end ConsumeLoop

/-- `my_memrchr`: the last position of `c` in the first `n` bytes. -/
def myMemrchr (m : Bytes) (c : UInt8) : Nat → Option Nat
  | 0 => none
  | n + 1 => if m[n]? = some c then some n else myMemrchr m c n

variable {Engine : Type} (env : Env Engine)

/-! ## Pool -/

/-- `pool::net_on_data_recv`: its answer and what it leaves of the data. -/
def netOnDataRecv (data : Bytes) : Loop Engine (Int × Bytes) := do
  match myMemrchr data 10 data.length with
  | none => return (0, data)
  | some last =>
      let text := cString (data.take last)
      let left := writeAt (writeAt data last [0]) 0 (env.config.rapidjson.residue text)
      match env.config.rapidjson.parseInsitu text with
      | some (.object members) =>
          if ← liftApp (processJsonDoc env.config (.object members)) then
            return ((last + 1 : Nat), left)
          else
            return (-1, left)
      | _ =>
          netOnError env (doShutdown env) (ascii "JSON parse error")
          return (-1, left)

def netOnConnect (tlsFp : Option Bytes) : Loop Engine Unit := do
  let mismatch :=
    match tlsFp with
    | none => false
    | some tlsFp => 0 < env.config.tlsFp.length && env.config.tlsFp != tlsFp
  if mismatch then
    netOnError env (doShutdown env) (ascii "TLS Fingerprint verification failed")
  else
    setState .connected
    doLoginCall env

/-! ## TLS -/

/-- An error on the TLS path: report it, then shut down. -/
def tlsFail : Loop Engine Unit := do
  getTlsError env (doShutdown env)
  doShutdown env

/-- The end of `do_ssl_handshake`, after the result `rv` of `SSL_do_handshake`
has been looked at for errors. -/
def finishHandshake (rv : Int) : Loop Engine Unit := do
  flushTlsPending env (doShutdown env)
  if rv = 1 then
    setTls fun tls => { tls with handshakeComplete := true }
    let (fingerprint, engine) := env.openssl.peerFingerprint (← get).tls.engine
    setTls fun tls => { tls with engine := engine }
    match fingerprint with
    | none => tlsFail env
    | some fingerprint => netOnConnect env (some fingerprint)
  else
    return

def doSslHandshake : Loop Engine Unit := do
  let (rv, engine) := env.openssl.doHandshake (← get).tls.engine
  setTls fun tls => { tls with engine := engine }
  if rv ≠ 1 ∧ env.openssl.getError engine rv = .other then
    tlsFail env
    finishHandshake env rv
  else
    finishHandshake env rv

/-- The end of `consume_ct_data`. -/
def finishCtData (rv : Int) (data : Bytes) : Loop Engine (Int × Bytes) := do
  flushTlsPending env (doShutdown env)
  return (rv, data)

def consumeCtData (data : Bytes) : Loop Engine (Int × Bytes) := do
  let (rv, engine) := env.openssl.bioWrite (← get).tls.engine data
  setTls fun tls => { tls with engine := engine }
  if rv ≤ 0 then
    getTlsError env (doShutdown env)
    return (-1, data)
  else if (← get).tls.handshakeComplete = false then
    doSslHandshake env
    return (rv, data)
  else
    let tls := (← get).tls
    let (r, plain, engine) := env.openssl.read tls.engine (4096 - tls.ptPos)
    setTls fun tls => { tls with engine := engine }
    if r = 0 then
      return (-1, data)
    else if 0 < r then
      let (good, ptBuf, ptPos) ←
        consumeLoop (netOnDataRecv env) (tls.ptBuf.write tls.ptPos plain) (tls.ptPos + r.toNat)
      setTls fun tls => { tls with ptBuf := ptBuf, ptPos := ptPos }
      if good then
        finishCtData env rv data
      else
        return (-1, data)
    else
      match env.openssl.getError engine r with
      | .wantReadOrWrite => finishCtData env rv data
      | .other =>
          getTlsError env (doShutdown env)
          return (-1, data)

/-- `net_interface::on_socket_read` with the consumer of the interface. -/
def onSocketRead : Loop Engine Bool := do
  let net := (← get).net
  let (good, recvBuf, recvPos) ←
    consumeLoop (if env.useTls then consumeCtData env else netOnDataRecv env)
      net.recvBuf net.recvPos
  setNet fun net => { net with recvBuf := recvBuf, recvPos := recvPos }
  return good

end EpicMiner.EventLoop
