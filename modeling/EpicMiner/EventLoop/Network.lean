import Mathlib.Data.Fintype.Defs
import Mathlib.Logic.Function.Basic
import EpicMiner.EventLoop.Documents

/-!
Owns the state of the network interface, plain and TLS, and of the libuv
requests behind it. libuv and OpenSSL are not part of the repository: libuv is
the set of requests whose callbacks are still to come together with its answers
to the calls of one callback, OpenSSL is a parameter over an abstract engine.
-/

namespace EpicMiner.EventLoop

open EpicMiner.Library
open EpicMiner.Data

/-! ## Plain interface -/

/-- `net_interface::send_st`. A request member stands for whether its `data`
pointer is non-null, here and below. -/
structure SendSt where
  rSend : Bool
  data : Buffer 2048
  active : Bool

/-- The members of `net_interface`. -/
structure NetInterface where
  hSock : Bool
  rConn : Bool
  rResolv : Bool
  rShutdown : Bool
  sendBufs : Fin 4 → SendSt
  recvBuf : Buffer 4096
  recvPos : Nat
  shuttingDown : Bool

/-- Callbacks that libuv still has to run, and its answers to the calls that
the running callback makes. -/
structure Uv where
  dns : Bool
  conn : Bool
  connected : Bool
  reading : Bool
  shutdown : Bool
  closing : Bool
  writes : Fin 4 → Bool
  /-- Whether `uv_getaddrinfo` would accept a request. -/
  acceptsResolve : Bool
  /-- Whether `uv_tcp_connect` would accept a request. -/
  acceptsConnect : Bool
  /-- Whether `uv_shutdown` would accept a request on a connected stream. -/
  acceptsShutdown : Bool
  /-- Whether `uv_write` would accept a request on a slot. -/
  acceptsWrite : Fin 4 → Bool

/-! ## TLS interface -/

inductive SslError where
  | wantReadOrWrite
  | other
deriving DecidableEq, Repr

/-- The OpenSSL calls of `tls_interface.cpp` over an abstract engine. -/
structure OpenSsl (Engine : Type) where
  newSession : Engine → Bool × Engine
  newBioPair : Engine → Bool × Engine
  doHandshake : Engine → Int × Engine
  getError : Engine → Int → SslError
  /-- Digest, certificate and base64 text; none when one of them is missing. -/
  peerFingerprint : Engine → Option Bytes × Engine
  write : Engine → Bytes → Int × Engine
  /-- The bytes have the returned length when it is positive. -/
  read : Engine → Nat → Int × Bytes × Engine
  shutdown : Engine → Engine
  bioPending : Engine → Nat
  bioWrite : Engine → Bytes → Int × Engine
  bioRead : Engine → Nat → Int × Bytes × Engine
  errorText : Engine → Bytes × Engine

/-- The members of `tls_interface`; the two BIO pointers are null together. -/
structure TlsInterface (Engine : Type) where
  ssl : Bool
  bio : Bool
  handshakeComplete : Bool
  ptBuf : Buffer 4096
  ptPos : Nat
  engine : Engine

/-! ## The whole event loop -/

structure Sys (Engine : Type) where
  app : App
  net : NetInterface
  tls : TlsInterface Engine
  uv : Uv

structure Env (Engine : Type) where
  config : Config
  useTls : Bool
  openssl : OpenSsl Engine
  uvStrerror : Int → Bytes
  /-- What the stack holds around a line that is printed to a buffer on it, by the distance
  from the start of the buffer. -/
  memory : Engine → Int → UInt8
  /-- How many nested calls of `do_shutdown` the stack admits. -/
  stack : Nat
  /-- How many rounds of the write loop of the TLS path the model follows. -/
  patience : Nat

def Env.plain (config : Config) : Env Unit where
  config := config
  useTls := false
  openssl :=
    { newSession := fun _ => (false, ())
      newBioPair := fun _ => (false, ())
      doHandshake := fun _ => (-1, ())
      getError := fun _ _ => .other
      peerFingerprint := fun _ => (none, ())
      write := fun _ _ => (-1, ())
      read := fun _ _ => (-1, [], ())
      shutdown := fun _ => ()
      bioPending := fun _ => 0
      bioWrite := fun _ _ => (-1, ())
      bioRead := fun _ _ => (-1, [], ())
      errorText := fun _ => ([], ()) }
  uvStrerror := fun _ => ascii "connection refused"
  memory := fun _ _ => 0
  stack := 1
  patience := 1

abbrev Loop (Engine : Type) := Program Fault (Sys Engine)

section Access

variable {Engine : Type}

def liftApp {α : Type} (program : AppProgram α) : Loop Engine α :=
  Program.zoom Sys.app (fun app sys => { sys with app := app }) program

def record (effect : Effect) : Loop Engine Unit :=
  liftApp (emit effect)

def setNet (update : NetInterface → NetInterface) : Loop Engine Unit :=
  modify fun sys => { sys with net := update sys.net }

def setTls (update : TlsInterface Engine → TlsInterface Engine) : Loop Engine Unit :=
  modify fun sys => { sys with tls := update sys.tls }

def setUv (update : Uv → Uv) : Loop Engine Unit :=
  modify fun sys => { sys with uv := update sys.uv }

def setState (state : PoolState) : Loop Engine Unit :=
  liftApp (modify (App.setPool fun pool => { pool with state := state }))

def setSlot (idx : Fin 4) (update : SendSt → SendSt) : Loop Engine Unit :=
  setNet fun net =>
    { net with sendBufs := Function.update net.sendBufs idx (update (net.sendBufs idx)) }

end Access

end EpicMiner.EventLoop
