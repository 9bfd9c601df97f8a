import EpicMiner.EventLoop.App

/-!
Owns the handling of one parsed document: `process_json_doc`, the functions it
calls in `pool.cpp`, and the executor functions these call. Console output and
the hash-rate log are left out; every other effect is in the state or the log.
-/

namespace EpicMiner.EventLoop

open EpicMiner.Library
open EpicMiner.Data

/-- `GetObjectMember` with a literal key. -/
def member (value : Value) (key : String) : AppProgram (Option Value) :=
  liftM (value.getObjectMember (ascii key))

def updateJob (update : PoolJob → PoolJob) : AppProgram Unit :=
  modify (App.setPool fun pool => { pool with myJob := update pool.myJob })

def resetJob : AppProgram Unit := do
  updateJob PoolJob.reset
  emit (.shared .storeNonce)

def logError (text : Bytes) : AppProgram Unit :=
  emit (.logError text)

def poolErrorText (config : Config) (err : Bytes) : Bytes :=
  ascii "Pool error [" ++ config.hostname ++ ascii "] : " ++ cString err

def protocolError (config : Config) (err : Bytes) : AppProgram Bool := do
  logError (poolErrorText config err)
  return false

/-! ## Executor -/

def onPoolNewJob (config : Config) : AppProgram Unit := do
  let job := (← get).pool.myJob
  emit (.newJob job)
  emit (.shared (.adjustToSeed job.randomxSeed))
  emit (.shared (.adjustToBlock job.height))
  modify fun app => app.setExecutor fun executor =>
    { executor with poolCtr := executor.poolCtr.date app.nowSeconds }
  let minerJob := MinerJob.published config.getEpochNumber job
  modify (App.setExecutor fun executor =>
    { executor with published := executor.published.publish minerJob })
  emit (.shared (.publish minerJob))

/-- `executor::on_pool_disconnect` with `push_idle_job`. -/
def onPoolDisconnect : AppProgram Unit := do
  if (← get).currentType ≠ .idle then
    modify (App.setExecutor fun executor =>
      { poolCtr := .zero, published := executor.published.publish .idle })
  emit (.shared .publishIdle)

def difficulty (target : UInt32) : UInt32 :=
  if 0 < target then 0xffffffff / target else 0xffffffff

def onResultReply (config : Config) (target : UInt32) (error : Option Bytes) (rtt : UInt64)
    (minerId : UInt32) : AppProgram Unit := do
  emit (.resultReply target error rtt minerId)
  if config.miners.length ≤ minerId.toNat then
    throw .outOfRange
  else
    match error with
    | none =>
        modify (App.setExecutor fun executor =>
          { executor with
            poolCtr :=
              { executor.poolCtr with
                acceptedSharesCnt := executor.poolCtr.acceptedSharesCnt + 1
                totalDiff := executor.poolCtr.totalDiff + (difficulty target).toUInt64 } })
    | some text => do
        modify (App.setExecutor fun executor =>
          { executor with
            poolCtr :=
              { executor.poolCtr with
                rejectedSharesCnt := executor.poolCtr.rejectedSharesCnt + 1 } })
        logError text

/-! ## Jobs -/

/-- The members of a job message after the first check of `process_pool_job`. -/
structure JobParams where
  jobid : Bytes
  blob : Bytes
  target : Bytes
  powAlgo : Bytes
  seedHash : Value
  height : UInt32

/-- The lookups and the first check of `process_pool_job`; none for "Job error
1". The type of `seed_hash` is only checked later. -/
def checkParams (param : Value) : Except Fault (Option JobParams) := do
  let jobid ← param.getObjectMember (ascii "job_id")
  let blob ← param.getObjectMember (ascii "blob")
  let target ← param.getObjectMember (ascii "target")
  let _motd ← param.getObjectMember (ascii "motd")
  let powAlgo ← param.getObjectMember (ascii "pow_algo")
  let seedHash ← param.getObjectMember (ascii "seed_hash")
  let height ← param.getObjectMember (ascii "height")
  match jobid, blob, target, powAlgo, height, seedHash with
  | some (.string jobid), some (.string blob), some (.string target), some (.string powAlgo),
      some (.number (some height)), some seedHash =>
      return some ⟨jobid, blob, target, powAlgo, seedHash, height⟩
  | _, _, _, _, _, _ => return none

def powTypeOf (powAlgo : Bytes) : Option PowType :=
  if strcmpEqual powAlgo (ascii "randomx") then some .randomx
  else if strcmpEqual powAlgo (ascii "progpow") then some .progpow
  else if strcmpEqual powAlgo (ascii "cuckoo") then some .cuckoo
  else none

/-- `sTempStr` after the copy: the target padded on the right with '0'. -/
def paddedTarget (target : Bytes) : Bytes :=
  target ++ List.replicate (8 - target.length) 48

/-- `work_len`. A JSON string is shorter than 2^32 bytes, so nothing wraps. -/
def workLen (params : JobParams) : Nat :=
  params.blob.length / 2

/-- The writes of `process_pool_job` to `my_job` between its reset and the
acceptance, up to the first rejection, whose text is returned. -/
def fillJob (params : JobParams) (job : PoolJob) : Option Bytes × PoolJob :=
  match powTypeOf params.powAlgo with
  | none => (some (ascii "Unknown algorithm: " ++ cString params.powAlgo), job)
  | some type =>
      let job := { job with type := type }
      if 64 ≤ params.jobid.length then (some (ascii "PARSE error: Job error 3"), job)
      else
        let job := { job with id := job.id.write 0 (params.jobid ++ [0]) }
        if 512 < workLen params then (some (ascii "PARSE error: Invalid job length."), job)
        else
          let (decoded, blob) := hex2bin params.blob (workLen params * 2) job.blob
          let job := { job with blob := blob }
          if decoded = false then (some (ascii "PARSE error: Job error 4"), job)
          else if 8 < params.target.length then
            (some (ascii "PARSE error: Invalid target len"), job)
          else
            let (decoded, target) :=
              hex2bin (paddedTarget params.target) 8 (⟨le32 job.target, rfl⟩ : Buffer 4)
            let job := { job with target := ofLe32 target.cells }
            if decoded = false ∨ job.target = 0 then
              (some (ascii "PARSE error: Invalid target"), job)
            else
              match params.seedHash with
              | .string seedHash =>
                  if seedHash.length ≠ 64 then
                    (some (ascii "PARSE error: Invalid seed_hash"), job)
                  else
                    let (decoded, seed) := hex2bin seedHash seedHash.length job.randomxSeed
                    let job := { job with randomxSeed := seed }
                    if decoded = false then
                      (some (ascii "PARSE error: Invalid seed_hash"), job)
                    else (none, job)
              | _ => (some (ascii "PARSE error: Invalid seed_hash"), job)

/-- The last writes of `process_pool_job` to `my_job`, all but the counter. -/
def finishJob (params : JobParams) (job : PoolJob) : PoolJob :=
  { job with
    height := params.height
    noncePos := (workLen params).toUInt32 - 4
    blobLen := (workLen params).toUInt32 }

/-- The end of `process_pool_job`, given the first rejection and what has been
written to `my_job` until then. -/
def settleJob (config : Config) (params : JobParams) (filled : Option Bytes × PoolJob) :
    AppProgram Bool := do
  updateJob fun _ => filled.2
  match filled.1 with
  | some err => protocolError config err
  | none =>
      modify (App.setPool fun pool => { pool with state := .hasJob })
      emit .hasJob
      updateJob (finishJob params)
      updateJob fun job => { job with nonce := 0 }
      emit (.shared .storeNonce)
      onPoolNewJob config
      return true

def processPoolJob (config : Config) (param : Value) : AppProgram Bool := do
  match ← liftM (checkParams param) with
  | none => protocolError config (ascii "PARSE error: Job error 1")
  | some params =>
      resetJob
      settleJob config params (fillJob params (← get).pool.myJob)

/-! ## Replies -/

def processPoolLogin (config : Config) (value : Option Value) (errMsg : Option Bytes) :
    AppProgram Bool :=
  match errMsg with
  | some _ => protocolError config (ascii "err_msg")
  | none =>
      match value with
      | none => throw .nullPointer
      | some value => do
          let id ← member value "id"
          let job ← member value "job"
          match id, job with
          | some (.string id), some job => do
              modify (App.setPool fun pool => { pool with poolMinerId := cString id })
              processPoolJob config job
          | _, _ => protocolError config (ascii "PARSE error: Login protocol error 1")

def processPoolKeepalive (config : Config) (errMsg : Option Bytes) : AppProgram Bool :=
  match errMsg with
  | some _ => protocolError config (ascii "err_msg")
  | none => return true

/-- The switch at the end of `process_json_doc`. -/
def processReply (config : Config) (callId : UInt32) (result : Option Value)
    (errorMsg : Option Bytes) : AppProgram Bool := do
  let app ← get
  let (type, minerId, calls) := app.pool.calls.findCall callId
  modify (App.setPool fun pool => { pool with calls := calls })
  match type with
  | .invalid => protocolError config (ascii "Invalid call_id")
  | .login => processPoolLogin config result errorMsg
  | .result => do
      let rtt : UInt64 :=
        if app.pool.pingCallId = callId ∧ app.pool.pingTimestamp < app.now then
          (app.now - app.pool.pingTimestamp).toNat.toUInt64
        else 0
      onResultReply config app.pool.myJob.target errorMsg rtt minerId
      return true
  | .keepalive => processPoolKeepalive config errorMsg

def processJsonDoc (config : Config) (jsonDoc : Value) : AppProgram Bool := do
  emit (.document jsonDoc)
  match ← member jsonDoc "method" with
  | some (.string method) =>
      if strcmpEqual method (ascii "job") then
        match ← member jsonDoc "params" with
        | some (.object params) => processPoolJob config (.object params)
        | _ => protocolError config (ascii "PARSE error: Protocol error 2")
      else protocolError config (ascii "PARSE error: Unsupported server method.")
  | some _ => protocolError config (ascii "PARSE error: Protocol error 1")
  | none =>
      match ← member jsonDoc "id" with
      | some (.number (some callId)) =>
          match ← member jsonDoc "error" with
          | none | some .null =>
              match ← member jsonDoc "result" with
              | none => protocolError config (ascii "PARSE error: Protocol error 7")
              | some (.object result) => processReply config callId (some (.object result)) none
              | some _ => protocolError config (ascii "PARSE error: Protocol error 8")
          | some (.object error) =>
              match ← member (.object error) "message" with
              | some (.string message) =>
                  processReply config callId none (some (cString message))
              | _ => protocolError config (ascii "PARSE error: Protocol error 6")
          | some _ => protocolError config (ascii "PARSE error: Protocol error 5")
      | _ => protocolError config (ascii "PARSE error: Protocol error 3")

end EpicMiner.EventLoop
