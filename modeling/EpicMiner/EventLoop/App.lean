import EpicMiner.Data.Json
import EpicMiner.EventLoop.Calls

/-!
Owns the state that the pool's document handling works on: the pool's members,
the executor's members, and the log of what the event loop did. The network
interface is not part of this state, so no function over it can touch a socket.
-/

namespace EpicMiner.EventLoop

open EpicMiner.Library
open EpicMiner.Data

inductive PoolState where
  | idle
  | connecting
  | connected
  | hasJob
deriving DecidableEq, Repr

structure MinerResult where
  id : Buffer 64
  nonce : UInt32
  resHash : V32
  minerId : UInt32
deriving DecidableEq

/-! ## Configuration -/

/-- What is fixed for a run: the configuration of the pool, the miners, and the
libraries the code calls. -/
structure Config where
  hostname : Bytes
  username : Bytes
  password : Bytes
  rigid : Bytes
  tlsFp : Bytes
  miners : List MinerType
  rapidjson : RapidJson
  getEpochNumber : Int32 → Int32

/-- The configuration of `executor::run`. -/
def Config.ofRun (rapidjson : RapidJson) (getEpochNumber : Int32 → Int32) : Config where
  hostname := ascii "88.80.191.147:3333"
  username := ascii "user"
  password := ascii "pass"
  rigid := []
  tlsFp := []
  miners := [.randomxCpuMiner, .progpowCpuMiner]
  rapidjson := rapidjson
  getEpochNumber := getEpochNumber

/-! ## The log -/

/-- What the event loop did, as far as another party or a later statement can
tell: calls into libuv, published jobs, shares and documents. -/
inductive Effect where
  /-- `process_json_doc` was called on a document. -/
  | document (doc : Value)
  /-- A share reached `do_send_result` while the pool had a job. -/
  | share (result : MinerResult)
  /-- A submit line with this call id was formatted for a share. -/
  | submit (callId : UInt32) (result : MinerResult)
  | login (callId : UInt32)
  | hasJob
  | newJob (job : PoolJob)
  | resultReply (target : UInt32) (error : Option Bytes) (rtt : UInt64) (minerId : UInt32)
  | logError (text : Bytes)
  | shared (op : SharedOp)
  /-- `do_connect`; says whether `h_sock.data` was null then. -/
  | dial (sockClear : Bool)
  | shutdownCalled
  /-- `uv_shutdown` was called; says whether it accepted the request. -/
  | uvShutdown (accepted : Bool)
  /-- `uv_write` was called on a send slot with this many of its bytes; says whether it
  accepted the request. -/
  | uvWrite (slot : Nat) (data : Bytes) (len : Nat) (accepted : Bool)
  | closed

/-! ## State -/

/-- The members of `pool` that do not belong to its network interface. -/
structure Pool where
  state : PoolState
  poolMinerId : Bytes
  lastConnectAttempt : Int
  myJob : PoolJob
  calls : CallMap
  pingCallId : UInt32
  pingTimestamp : Int

structure SessionCounters where
  sessionTimestamp : Int
  acceptedSharesCnt : UInt64
  rejectedSharesCnt : UInt64
  totalDiff : UInt64
deriving DecidableEq

def SessionCounters.zero : SessionCounters := ⟨0, 0, 0, 0⟩

def SessionCounters.date (nowSeconds : Int) (counters : SessionCounters) : SessionCounters :=
  if counters.sessionTimestamp = 0 then { counters with sessionTimestamp := nowSeconds }
  else counters

/-- The members of `executor` that the event loop works on. -/
structure Executor where
  poolCtr : SessionCounters
  published : PublishedJobs

/-- Pool, executor, the clocks as this callback reads them, the value that an
uninitialised `uint32_t call_id` holds, and the log, latest entry first. -/
structure App where
  pool : Pool
  executor : Executor
  now : Int
  nowSeconds : Int
  uninitialised : UInt32
  log : List Effect

abbrev AppProgram := Program Fault App

namespace App

def record (effect : Effect) (app : App) : App :=
  { app with log := effect :: app.log }

def setPool (update : Pool → Pool) (app : App) : App :=
  { app with pool := update app.pool }

def setExecutor (update : Executor → Executor) (app : App) : App :=
  { app with executor := update app.executor }

def currentType (app : App) : PowType :=
  app.executor.published.currentJob.type

end App

/-- Pool and executor over zeroed memory, as `executor::run` enters the loop. -/
def App.start : App where
  pool :=
    { state := .idle
      poolMinerId := []
      lastConnectAttempt := 0
      myJob := .zero
      calls := .zero
      pingCallId := 0xffffffff
      pingTimestamp := -1 }
  executor := { poolCtr := .zero, published := .initial }
  now := 0
  nowSeconds := 0
  uninitialised := 0
  log := []

def emit (effect : Effect) : AppProgram Unit :=
  modify (App.record effect)

end EpicMiner.EventLoop
