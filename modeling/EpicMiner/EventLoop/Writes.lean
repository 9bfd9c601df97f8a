import EpicMiner.EventLoop.Closure
import EpicMiner.EventLoop.Messages

/-!
Owns the write loop of the TLS path. `SSL_write` answers from a given sequence here, and its
calls are recorded beside the engine. The loop goes on after a failed write: it adds the
failure to its offset.
-/

namespace EpicMiner.EventLoop

open EpicMiner.Library
open EpicMiner.Library.Program
open EpicMiner.Data

variable {Engine : Type}

/-! ## Recorded writes -/

/-- A call of `SSL_write`: what it was given and what it returned. -/
structure WriteCall where
  chunk : Bytes
  i : Int
deriving DecidableEq

/-- An OpenSSL whose calls of `SSL_write` return the given results, one after the other. -/
def OpenSsl.answering (results : Nat → Int) (openssl : OpenSsl Engine) :
    OpenSsl (Engine × List WriteCall) where
  newSession := fun (engine, calls) =>
    let (session, next) := openssl.newSession engine
    (session, next, calls)
  newBioPair := fun (engine, calls) =>
    let (pair, next) := openssl.newBioPair engine
    (pair, next, calls)
  doHandshake := fun (engine, calls) =>
    let (rv, next) := openssl.doHandshake engine
    (rv, next, calls)
  getError := fun (engine, _) => openssl.getError engine
  peerFingerprint := fun (engine, calls) =>
    let (fingerprint, next) := openssl.peerFingerprint engine
    (fingerprint, next, calls)
  write := fun (engine, calls) chunk =>
    let i := results calls.length
    (i, (openssl.write engine chunk).2, calls ++ [⟨chunk, i⟩])
  read := fun (engine, calls) len =>
    let (r, plain, next) := openssl.read engine len
    (r, plain, next, calls)
  shutdown := fun (engine, calls) => (openssl.shutdown engine, calls)
  bioPending := fun (engine, _) => openssl.bioPending engine
  bioWrite := fun (engine, calls) data =>
    let (rv, next) := openssl.bioWrite engine data
    (rv, next, calls)
  bioRead := fun (engine, calls) len =>
    let (rv, data, next) := openssl.bioRead engine len
    (rv, data, next, calls)
  errorText := fun (engine, calls) =>
    let (text, next) := openssl.errorText engine
    (text, next, calls)

def Env.answering (results : Nat → Int) (patience : Nat) (env : Env Engine) :
    Env (Engine × List WriteCall) where
  config := env.config
  useTls := env.useTls
  openssl := env.openssl.answering results
  uvStrerror := env.uvStrerror
  memory := fun (engine, _) => env.memory engine
  stack := env.stack
  patience := patience

def Sys.writeCalls (sys : Sys (Engine × List WriteCall)) : List WriteCall :=
  sys.tls.engine.2

/-- The sum of the first results, which is the offset of the loop. -/
def offsetAfter (results : Nat → Int) : Nat → Int
  | 0 => 0
  | k + 1 => offsetAfter results k + results k

/-! ## What the loop is for -/

/-- The bytes that the calls have encrypted. -/
def encrypted (calls : List WriteCall) : Bytes :=
  calls.flatMap fun call => call.chunk.take call.i.toNat

/-- Every call is given the bytes from its offset on, no byte is encrypted twice or out of
order, and no call follows one that failed. -/
structure WritesInOrder (data : Bytes) (results : Nat → Int) (calls : List WriteCall) :
    Prop where
  given : ∀ k call, calls[k]? = some call → call.i = results k ∧
    0 ≤ offsetAfter results k ∧ offsetAfter results k < data.length ∧
    call.chunk = data.drop (offsetAfter results k).toNat
  once : ∃ count, encrypted calls = data.take count
  stops : ∀ k call, calls[k]? = some call → call.i ≤ 0 → calls.length = k + 1

/-- After a failed write the error is reported and the shutdown started. -/
def ReportsFailure (sys next : Sys (Engine × List WriteCall)) : Prop :=
  (∃ call ∈ next.writeCalls, call.i ≤ 0) →
    ∃ newer text, next.app.log = newer ++ sys.app.log ∧ .logError text ∈ newer ∧
      .shutdownCalled ∈ newer

/-- For a message and the results of `SSL_write`, whatever else OpenSSL and libuv answer:
the loop ends, and it has written in order when it ends normally. A crash inside the flush
or the report of an error is not its own. -/
def WritesMessage (data : Bytes) (results : Nat → Int) : Prop :=
  ∀ (Engine : Type) (env : Env Engine) (sys : Sys (Engine × List WriteCall)),
    sys.writeCalls = [] → ∃ rounds, ∀ patience, rounds ≤ patience →
      Ensures (tlsDoSocketWrite (env.answering results patience) data data.length) sys
        (fun _ next => WritesInOrder data results next.writeCalls ∧ ReportsFailure sys next)
        fun failure => failure ≠ .stuckLoop

/-- Every result up to the one that completes the message is positive. -/
def Completes (len : Nat) (results : Nat → Int) : Prop :=
  ∃ n, (∀ k < n, 0 < results k) ∧ len ≤ offsetAfter results n

/-! ## Positive results -/

section Sums

variable {results : Nat → Int}

theorem offsetAfter_lt {n : Nat} (positive : ∀ k < n, 0 < results k) {k m : Nat} (less : k < m)
    (within : m ≤ n) : offsetAfter results k < offsetAfter results m := by
  induction m with
  | zero => omega
  | succ m inductionHypothesis =>
      have step := positive m (by omega)
      rw [offsetAfter]
      rcases Nat.lt_or_eq_of_le (Nat.le_of_lt_succ less) with before | rfl
      · have earlier := inductionHypothesis before (by omega)
        omega
      · omega

theorem offsetAfter_nonneg {n : Nat} (positive : ∀ k < n, 0 < results k) :
    0 ≤ offsetAfter results n := by
  cases n with
  | zero => exact Int.le_refl 0
  | succ n => exact Int.le_of_lt (offsetAfter_lt positive (Nat.succ_pos n) (Nat.le_refl _))

/-- The calls that the loop makes while all of them succeed. -/
def callsUpTo (data : Bytes) (results : Nat → Int) (n : Nat) : List WriteCall :=
  (List.range n).map fun k => ⟨data.drop (offsetAfter results k).toNat, results k⟩

@[simp] theorem length_callsUpTo (data : Bytes) (n : Nat) :
    (callsUpTo data results n).length = n := by
  simp [callsUpTo]

theorem callsUpTo_succ (data : Bytes) (n : Nat) :
    callsUpTo data results (n + 1) =
      callsUpTo data results n ++ [⟨data.drop (offsetAfter results n).toNat, results n⟩] := by
  simp [callsUpTo, List.range_succ]

theorem encrypted_callsUpTo (data : Bytes) {n : Nat} (positive : ∀ k < n, 0 < results k) :
    encrypted (callsUpTo data results n) = data.take (offsetAfter results n).toNat := by
  induction n with
  | zero => simp [callsUpTo, encrypted, offsetAfter]
  | succ n inductionHypothesis =>
      have before : ∀ k < n, 0 < results k := fun k less => positive k (by omega)
      have offset := offsetAfter_nonneg before
      have step := positive n (by omega)
      have sum : (offsetAfter results (n + 1)).toNat =
          (offsetAfter results n).toNat + (results n).toNat := by
        rw [offsetAfter]
        omega
      rw [callsUpTo_succ, encrypted, List.flatMap_append, ← encrypted,
        inductionHypothesis before, sum, List.take_add]
      simp

theorem callsUpTo_getElem {data : Bytes} {n k : Nat} {call : WriteCall}
    (found : (callsUpTo data results n)[k]? = some call) :
    k < n ∧ call = ⟨data.drop (offsetAfter results k).toNat, results k⟩ := by
  obtain ⟨less, here⟩ := List.getElem?_eq_some_iff.mp found
  exact ⟨by simpa using less, by rw [← here]; simp [callsUpTo]⟩

theorem writesInOrder_callsUpTo {data : Bytes} {n : Nat} (positive : ∀ k < n, 0 < results k)
    (inside : ∀ k < n, offsetAfter results k < data.length) :
    WritesInOrder data results (callsUpTo data results n) where
  given := by
    intro k call found
    obtain ⟨less, rfl⟩ := callsUpTo_getElem found
    exact ⟨rfl, offsetAfter_nonneg fun k before => positive k (by omega), inside k less, rfl⟩
  once := ⟨_, encrypted_callsUpTo data positive⟩
  stops := by
    intro k call found failed
    obtain ⟨less, rfl⟩ := callsUpTo_getElem found
    exact absurd (positive k less) (Int.not_lt.mpr failed)

end Sums

/-! ## The loop -/

/-- Everything but `SSL_write` leaves the record of its calls alone, and does not loop. -/
def keepsWrites : Behaviour Fault (Sys (Engine × List WriteCall)) where
  Change := fun sys next => next.writeCalls = sys.writeCalls
  Fault := fun _ failure => failure ≠ .stuckLoop
  refl := fun _ => rfl
  trans := fun before after => after.trans before
  fault_trans := fun _ fault => fault

theorem keepsWrites_shutting (env : Env Engine) (results : Nat → Int) (patience : Nat) :
    Shutting (env.answering results patience) keepsWrites where
  nullPointer := fun _ => by simp [keepsWrites]
  stackOverflow := fun _ => by simp [keepsWrites]
  sendIdle := fun _ _ _ _ => by simp [keepsWrites]
  shutdownIdle := fun _ _ _ => by simp [keepsWrites]
  logError := fun _ _ => rfl
  shutdownCalled := fun _ => rfl
  shutdownStarted := fun _ _ _ => rfl
  jobDropped := fun _ _ => rfl
  acquire := fun _ _ _ => rfl
  fill := fun _ _ _ _ => rfl
  handOver := fun _ _ _ _ _ => rfl
  errorText := fun _ => rfl
  shutdown := fun _ => rfl
  bioRead := fun _ _ => rfl

section Loop

variable {env : Env Engine} {data : Bytes} {results : Nat → Int} {patience : Nat}

/-- The state after the call of `SSL_write` of a round. -/
def Sys.writeMade (data : Bytes) (len : Nat) (results : Nat → Int) (env : Env Engine)
    (offset : Int) (sys : Sys (Engine × List WriteCall)) : Sys (Engine × List WriteCall) :=
  sys.withTls fun tls =>
    { tls with
      engine := ((env.openssl.answering results).write tls.engine
        (readFrom (env.memory tls.engine.1) data offset (len - offset).toNat)).2 }

/-- The rest of a round that has written. -/
def afterWrite (env : Env Engine) (data : Bytes) (len fuel : Nat) (offset : Int) :
    Loop Engine Unit := do
  flushTlsPending env (doShutdown env)
  tlsWriteFrom env data len fuel offset

/-- One round of the loop. -/
theorem tlsWriteFrom_round (fuel : Nat) {offset : Int} (sys : Sys (Engine × List WriteCall))
    (more : offset < data.length) :
    (tlsWriteFrom (env.answering results patience) data data.length (fuel + 1) offset).run sys =
      (if results sys.writeCalls.length ≤ 0 then do
        tlsFail (env.answering results patience)
        afterWrite (env.answering results patience) data data.length fuel
          (offset + results sys.writeCalls.length)
      else
        afterWrite (env.answering results patience) data data.length fuel
          (offset + results sys.writeCalls.length)).run
        (sys.writeMade data data.length results env offset) := by
  rw [tlsWriteFrom, if_pos more, tlsFail, afterWrite]
  simp only [bind_assoc]
  rfl

theorem ensures_tlsWriteFrom_round (fuel : Nat) {offset : Int}
    (sys : Sys (Engine × List WriteCall)) (more : offset < data.length)
    {post : Unit → Sys (Engine × List WriteCall) → Prop} {fault : Fault → Prop} :
    Ensures (tlsWriteFrom (env.answering results patience) data data.length (fuel + 1) offset) sys
        post fault ↔
      Ensures (if results sys.writeCalls.length ≤ 0 then do
          tlsFail (env.answering results patience)
          afterWrite (env.answering results patience) data data.length fuel
            (offset + results sys.writeCalls.length)
        else
          afterWrite (env.answering results patience) data data.length fuel
            (offset + results sys.writeCalls.length))
        (sys.writeMade data data.length results env offset) post fault := by
  unfold Ensures
  rw [tlsWriteFrom_round fuel sys more]

theorem writeCalls_writeMade {sys : Sys (Engine × List WriteCall)} {m : Nat}
    (calls : sys.writeCalls = callsUpTo data results m) (reached : 0 ≤ offsetAfter results m)
    (more : offsetAfter results m < data.length) :
    (sys.writeMade data data.length results env (offsetAfter results m)).writeCalls =
      callsUpTo data results (m + 1) := by
  have made : (sys.writeMade data data.length results env (offsetAfter results m)).writeCalls =
      sys.writeCalls ++ [⟨readFrom (env.memory sys.tls.engine.1) data (offsetAfter results m)
        (data.length - offsetAfter results m).toNat, results sys.writeCalls.length⟩] := rfl
  have whole : readFrom (env.memory sys.tls.engine.1) data (offsetAfter results m)
      (data.length - offsetAfter results m).toNat = data.drop (offsetAfter results m).toNat := by
    obtain ⟨start, offset⟩ := Int.eq_ofNat_of_zero_le reached
    rw [offset] at more ⊢
    rw [readFrom_inside _ (by omega), Int.toNat_natCast]
    apply List.take_of_length_le
    rw [List.length_drop]
    omega
  rw [made, whole, calls, length_callsUpTo, callsUpTo_succ]

/-- While the results are positive, the loop writes the message and ends. -/
theorem tlsWriteFrom_completes {n : Nat} (positive : ∀ k < n, 0 < results k)
    (enough : data.length ≤ offsetAfter results n) (fuel : Nat) {m : Nat} (within : m ≤ n)
    (rounds : n - m < fuel) (sys : Sys (Engine × List WriteCall))
    (calls : sys.writeCalls = callsUpTo data results m)
    (inside : ∀ k < m, offsetAfter results k < data.length) :
    Ensures (tlsWriteFrom (env.answering results patience) data data.length fuel
        (offsetAfter results m)) sys
      (fun _ next => ∃ last ≤ n, next.writeCalls = callsUpTo data results last ∧
        ∀ k < last, offsetAfter results k < data.length)
      fun failure => failure ≠ .stuckLoop := by
  induction fuel generalizing m sys with
  | zero => omega
  | succ fuel inductionHypothesis =>
      by_cases more : offsetAfter results m < data.length
      · have later : m < n := by
          by_contra last
          have same : m = n := by omega
          rw [same] at more
          omega
        have succeeds := positive m later
        have reached := offsetAfter_nonneg fun k before => positive k (Nat.lt_trans before later)
        rw [ensures_tlsWriteFrom_round fuel sys more, calls, length_callsUpTo,
          if_neg (by omega), afterWrite, ensures_bind]
        have shutting := keepsWrites_shutting env results patience
        apply Ensures.mono (shutting.flushTlsPending shutting.doShutdown _)
        rintro _ next ⟨kept, -⟩
        refine inductionHypothesis (m := m + 1) later (by omega) next
          (kept.trans (writeCalls_writeMade calls reached more)) ?_
        intro k before
        rcases Nat.lt_or_eq_of_le (Nat.le_of_lt_succ before) with earlier | rfl
        · exact inside k earlier
        · exact more
      · rw [tlsWriteFrom, if_neg more]
        exact ⟨m, within, calls, inside⟩

end Loop

theorem writesMessage_of_completes {data : Bytes} {results : Nat → Int}
    (completes : Completes data.length results) : WritesMessage data results := by
  obtain ⟨n, positive, enough⟩ := completes
  intro Engine env sys fresh
  refine ⟨n + 1, fun patience rounds => ?_⟩
  have writes := @tlsWriteFrom_completes Engine env data results patience n positive
    enough patience 0 (Nat.zero_le n) (by omega) sys fresh (by simp)
  apply Ensures.mono writes
  rintro _ next ⟨last, within, calls, inside⟩
  have before : ∀ k < last, 0 < results k := fun k less => positive k (by omega)
  rw [calls]
  refine ⟨writesInOrder_callsUpTo before inside, ?_⟩
  rintro ⟨call, member, failed⟩
  rw [calls] at member
  obtain ⟨k, found⟩ := List.getElem?_of_mem member
  obtain ⟨less, rfl⟩ := callsUpTo_getElem found
  exact absurd (before k less) (Int.not_lt.mpr failed)

/-! ## After a failed write -/

/-- A connection under TLS that is being shut down, with nothing to send. -/
structure Quiet (sys : Sys (Unit × List WriteCall)) : Prop where
  down : sys.net.shuttingDown = true
  bio : sys.tls.bio = false

def Env.tlsPlain (config : Config) : Env Unit :=
  { Env.plain config with useTls := true }

section Quiet

variable {config : Config} {data : Bytes} {results : Nat → Int} {patience : Nat}
  {sys : Sys (Unit × List WriteCall)}

theorem Quiet.flush (quiet : Quiet sys) (shutdown : Loop (Unit × List WriteCall) Unit)
    (env : Env (Unit × List WriteCall)) :
    (flushTlsPending env shutdown).run sys = .ok ((), sys) := by
  have run : (flushTlsPending env shutdown).run sys =
      (if (if sys.tls.bio then env.openssl.bioPending sys.tls.engine else 0) = 0 then pure ()
        else _ : Loop (Unit × List WriteCall) Unit).run sys := rfl
  rw [run, quiet.bio]
  rfl

theorem Quiet.shutDown (quiet : Quiet sys) :
    Ensures (doShutdown ((Env.tlsPlain config).answering results patience)) sys
      (fun _ next => next = sys.logged .shutdownCalled) fun _ => False := by
  have unfolded : doShutdown ((Env.tlsPlain config).answering results patience) =
      tlsDoShutdown ((Env.tlsPlain config).answering results patience) 1 := rfl
  rw [unfolded, tlsDoShutdown, ensures_bind, ensures_record, ensures_bind, ensures_get, ensures_ite]
  exact ⟨fun _ => rfl, fun up => absurd quiet.down up⟩

theorem Quiet.fail (quiet : Quiet sys) :
    Ensures (tlsFail ((Env.tlsPlain config).answering results patience)) sys
      (fun _ next => Quiet next ∧ next.writeCalls = sys.writeCalls) fun _ => False := by
  unfold tlsFail getTlsError netOnError
  rw [ensures_bind, ensures_bind_of_run rfl, ensures_bind_of_run rfl, ensures_bind_of_run rfl,
    ensures_bind]
  have logged : ∀ text, Quiet (sys.logged (.logError text)) := fun _ => ⟨quiet.down, quiet.bio⟩
  refine (logged _).shutDown.imp ?_ fun _ never => never
  rintro _ next rfl
  have dropped : Quiet ((sys.logged (.logError (poolErrorText config []))).logged
      .shutdownCalled).jobDropped := ⟨quiet.down, quiet.bio⟩
  refine dropped.shutDown.imp ?_ fun _ never => never
  rintro _ next rfl
  exact ⟨⟨quiet.down, quiet.bio⟩, rfl⟩

/-- The loop only ends behind the end of the message. -/
theorem Quiet.ends (fuel : Nat) {m : Nat} (quiet : Quiet sys)
    (answers : sys.writeCalls.map WriteCall.i = (List.range m).map results) :
    Ensures (tlsWriteFrom ((Env.tlsPlain config).answering results patience) data data.length fuel
        (offsetAfter results m)) sys
      (fun _ next => ∃ last, next.writeCalls.map WriteCall.i = (List.range last).map results ∧
        data.length ≤ offsetAfter results last)
      fun failure => failure = .stuckLoop := by
  induction fuel generalizing m sys with
  | zero => exact rfl
  | succ fuel inductionHypothesis =>
      by_cases more : offsetAfter results m < data.length
      · have count : sys.writeCalls.length = m := by
          simpa using congrArg List.length answers
        have continued : ∀ next, Quiet next →
            next.writeCalls.map WriteCall.i = (List.range (m + 1)).map results →
            Ensures (afterWrite ((Env.tlsPlain config).answering results patience) data data.length
                fuel (offsetAfter results m + results m)) next
              (fun _ next => ∃ last, next.writeCalls.map WriteCall.i =
                (List.range last).map results ∧ data.length ≤ offsetAfter results last)
              fun failure => failure = .stuckLoop := by
          intro next still answers
          rw [afterWrite, ensures_bind_of_run (still.flush _ _)]
          exact inductionHypothesis (m := m + 1) still answers
        have made : (sys.writeMade data data.length results (Env.tlsPlain config)
            (offsetAfter results m)).writeCalls.map WriteCall.i =
              (List.range (m + 1)).map results := by
          rw [List.range_succ, List.map_append, ← answers, ← count]
          exact List.map_append
        have still : Quiet (sys.writeMade data data.length results (Env.tlsPlain config)
            (offsetAfter results m)) := ⟨quiet.down, quiet.bio⟩
        rw [ensures_tlsWriteFrom_round fuel sys more, count, ensures_ite]
        refine ⟨fun _ => ?_, fun _ => continued _ still made⟩
        rw [ensures_bind]
        refine still.fail.imp ?_ fun _ never => never.elim
        rintro _ next ⟨quiet, same⟩
        exact continued next quiet (by rw [same, made])
      · rw [tlsWriteFrom, if_neg more]
        exact ⟨m, answers, by omega⟩

end Quiet

/-- A shutdown is under way on the connection, and no ciphertext is left. -/
def Sys.quiet : Sys (Unit × List WriteCall) :=
  { Sys.start with
    net := { Sys.start.net with shuttingDown := true }
    tls :=
      { ssl := true
        bio := false
        handshakeComplete := true
        ptBuf := default
        ptPos := 0
        engine := ((), []) } }

theorem not_writesMessage_of_failed {data : Bytes} {results : Nat → Int} {k : Nat}
    (failed : results k ≤ 0) (inside : ∀ j ≤ k, offsetAfter results j < data.length) :
    ¬WritesMessage data results := by
  intro writes
  obtain ⟨rounds, enough⟩ :=
    writes Unit (.tlsPlain Env.sample.config) Sys.quiet rfl
  have orderly := enough rounds (Nat.le_refl _)
  have quiet : Quiet Sys.quiet := ⟨rfl, rfl⟩
  have ends := @Quiet.ends Env.sample.config data results rounds _ rounds 0 quiet rfl
  obtain ⟨_, next, -, ⟨⟨order, -⟩, last, answers, behind⟩⟩ :=
    (orderly.and ends).imp (fun _ _ both => both) (fun _ both => both.1 both.2) |>.exists_run
  have count : next.writeCalls.length = last := by simpa using congrArg List.length answers
  -- One more call follows the failed one, since the offset is still before the end.
  have later : k + 1 < last := by
    by_contra early
    rcases Nat.lt_or_eq_of_le (Nat.le_of_not_lt early) with before | rfl
    · have at_end := inside last (by omega)
      omega
    · have at_end := inside k (Nat.le_refl _)
      rw [offsetAfter] at behind
      omega
  obtain ⟨call, found⟩ : ∃ call, next.writeCalls[k]? = some call :=
    ⟨_, List.getElem?_eq_getElem (by omega)⟩
  have given := (order.given k _ found).1
  have stops := order.stops k _ found (given ▸ failed)
  omega

theorem le_offsetAfter {results : Nat → Int} {n : Nat} (positive : ∀ k < n, 0 < results k) :
    n ≤ offsetAfter results n := by
  induction n with
  | zero => exact Int.le_refl 0
  | succ n inductionHypothesis =>
      have before := inductionHypothesis fun k less => positive k (by omega)
      have step := positive n (by omega)
      rw [offsetAfter]
      omega

/-- A message that is not completed meets a first result that is not positive. -/
theorem exists_failed {len : Nat} {results : Nat → Int} (stuck : ¬Completes len results) :
    ∃ k, results k ≤ 0 ∧ ∀ j ≤ k, offsetAfter results j < len := by
  by_contra never
  have positive : ∀ n, ∀ k < n, 0 < results k := by
    intro n
    induction n with
    | zero => simp
    | succ n inductionHypothesis =>
        intro k less
        rcases Nat.lt_or_eq_of_le (Nat.le_of_lt_succ less) with before | rfl
        · exact inductionHypothesis k before
        · by_contra failed
          refine never ⟨k, by omega, fun j within => ?_⟩
          by_contra behind
          exact stuck ⟨j, fun i less => inductionHypothesis i (by omega), by omega⟩
  exact stuck ⟨len, positive len, le_offsetAfter (positive len)⟩

/-- For every message and every sequence of results of `SSL_write`, the loop writes as it
should exactly if all results up to the end of the message are positive. -/
theorem writesMessage_iff (data : Bytes) (results : Nat → Int) :
    WritesMessage data results ↔ Completes data.length results := by
  refine ⟨fun writes => ?_, writesMessage_of_completes⟩
  by_contra stuck
  obtain ⟨k, failed, inside⟩ := exists_failed stuck
  exact not_writesMessage_of_failed failed inside writes

/-- While `SSL_write` returns 0, the loop asks it again. -/
theorem zero_write_not_writesMessage :
    ¬WritesMessage (ascii "submit") (fun _ => 0) ∧
      ∀ patience, Ensures (tlsDoSocketWrite
          ((Env.tlsPlain Env.sample.config).answering (fun _ => 0) patience) (ascii "submit") 6)
        Sys.quiet (fun _ _ => False) fun failure => failure = .stuckLoop := by
  have still : ∀ k, offsetAfter (fun _ => 0) k = 0 := by
    intro k
    induction k with
    | zero => rfl
    | succ k inductionHypothesis => rw [offsetAfter, inductionHypothesis, Int.add_zero]
  refine ⟨not_writesMessage_of_failed (k := 0) (Int.le_refl 0) fun j _ => ?_, fun patience => ?_⟩
  · rw [still]
    decide
  · have quiet : Quiet Sys.quiet := ⟨rfl, rfl⟩
    refine (@Quiet.ends Env.sample.config (ascii "submit") (fun _ => 0) patience _ patience 0
      quiet rfl).mono ?_
    rintro _ next ⟨last, -, behind⟩
    rw [still] at behind
    exact absurd behind (by decide)

end EpicMiner.EventLoop
