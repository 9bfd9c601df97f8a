import EpicMiner.EventLoop.Traffic

/-!
Owns what is encrypted on the TLS path, and in which step. Beside the engine goes a record of the
calls of OpenSSL that decide what a server gets to see; every `SSL_write` in it belongs to the
callback that made it. User name and password are encrypted behind a matching fingerprint only.
-/

namespace EpicMiner.EventLoop

open EpicMiner.Library
open EpicMiner.Library.Program
open EpicMiner.Data

variable {Engine : Type}

/-! ## Recorded calls -/

inductive TlsCall where
  | newSession
  | peerFingerprint (text : Option Bytes)
  | write (chunk : Bytes)
deriving DecidableEq

/-- The same OpenSSL with its calls recorded beside the engine, latest first. -/
def OpenSsl.recorded (openssl : OpenSsl Engine) : OpenSsl (Engine × List TlsCall) where
  newSession := fun engine =>
    ((openssl.newSession engine.1).1, (openssl.newSession engine.1).2, .newSession :: engine.2)
  newBioPair := fun engine =>
    ((openssl.newBioPair engine.1).1, (openssl.newBioPair engine.1).2, engine.2)
  doHandshake := fun engine =>
    ((openssl.doHandshake engine.1).1, (openssl.doHandshake engine.1).2, engine.2)
  getError := fun engine => openssl.getError engine.1
  peerFingerprint := fun engine =>
    ((openssl.peerFingerprint engine.1).1, (openssl.peerFingerprint engine.1).2,
      .peerFingerprint (openssl.peerFingerprint engine.1).1 :: engine.2)
  write := fun engine chunk =>
    ((openssl.write engine.1 chunk).1, (openssl.write engine.1 chunk).2,
      .write chunk :: engine.2)
  read := fun engine room =>
    ((openssl.read engine.1 room).1, (openssl.read engine.1 room).2.1,
      (openssl.read engine.1 room).2.2, engine.2)
  shutdown := fun engine => (openssl.shutdown engine.1, engine.2)
  bioPending := fun engine => openssl.bioPending engine.1
  bioWrite := fun engine data =>
    ((openssl.bioWrite engine.1 data).1, (openssl.bioWrite engine.1 data).2, engine.2)
  bioRead := fun engine nwrt =>
    ((openssl.bioRead engine.1 nwrt).1, (openssl.bioRead engine.1 nwrt).2.1,
      (openssl.bioRead engine.1 nwrt).2.2, engine.2)
  errorText := fun engine =>
    ((openssl.errorText engine.1).1, (openssl.errorText engine.1).2, engine.2)

def Env.recorded (env : Env Engine) : Env (Engine × List TlsCall) where
  config := env.config
  useTls := env.useTls
  openssl := env.openssl.recorded
  uvStrerror := env.uvStrerror
  memory := fun engine => env.memory engine.1
  stack := env.stack
  patience := env.patience

def Sys.calls (sys : Sys (Engine × List TlsCall)) : List TlsCall :=
  sys.tls.engine.2

structure Unrecorded (sys : Sys (Engine × List TlsCall)) : Prop extends Initial sys where
  noCalls : sys.calls = []

/-- The event loop over the recorded OpenSSL, from an empty record on. -/
def recordedMachine (env : Env Engine) : Machine (Sys (Engine × List TlsCall)) Input :=
  .ofPartial Unrecorded (step env.recorded)

/-- A chunk that is read for a line does not depend on the record. -/
theorem LineRead.unrecorded {env : Env Engine} {line chunk : Bytes}
    (read : LineRead env.recorded line chunk) : LineRead env line chunk := by
  obtain ⟨engine, offset, more, same⟩ := read
  exact ⟨engine.1, offset, more, same⟩

/-! ## What one callback adds -/

/-- The record grows from `base` by calls of OpenSSL, of which each `SSL_write` is allowed where
it is made. -/
inductive Recorded (openssl : OpenSsl Engine) (Allowed : List TlsCall → Bytes → Prop)
    (base : List TlsCall) : List TlsCall → Prop
  | start : Recorded openssl Allowed base base
  | newSession {calls} : Recorded openssl Allowed base calls →
      Recorded openssl Allowed base (.newSession :: calls)
  | peerFingerprint {calls} (engine : Engine) : Recorded openssl Allowed base calls →
      Recorded openssl Allowed base
        (.peerFingerprint (openssl.peerFingerprint engine).1 :: calls)
  | write {calls} (chunk : Bytes) (allowed : Allowed calls chunk) :
      Recorded openssl Allowed base calls → Recorded openssl Allowed base (.write chunk :: calls)

namespace Recorded

variable {env : Env Engine} {openssl : OpenSsl Engine}
  {Allowed : List TlsCall → Bytes → Prop} {base calls : List TlsCall}

theorem base_suffix (recorded : Recorded openssl Allowed base calls) : base <:+ calls := by
  induction recorded with
  | start => exact List.suffix_rfl
  | newSession _ inductionHypothesis
  | peerFingerprint _ _ inductionHypothesis
  | write _ _ _ inductionHypothesis => exact inductionHypothesis.trans (List.suffix_cons _ _)

/-- An `SSL_write` in the record stood there before, or it was allowed. -/
theorem written (recorded : Recorded openssl Allowed base calls) {earlier : List TlsCall}
    {chunk : Bytes} (made : (.write chunk :: earlier) <:+ calls) :
    (.write chunk :: earlier) <:+ base ∨ base <:+ earlier ∧ Allowed earlier chunk := by
  induction recorded with
  | start => exact .inl made
  | newSession _ inductionHypothesis
  | peerFingerprint _ _ inductionHypothesis =>
      rcases List.suffix_cons_iff.mp made with same | before
      · cases same
      · exact inductionHypothesis before
  | write first allowed recorded inductionHypothesis =>
      rcases List.suffix_cons_iff.mp made with same | before
      · cases same
        exact .inr ⟨recorded.base_suffix, allowed⟩
      · exact inductionHypothesis before

/-- Each fingerprint in the record stood there before, or OpenSSL showed it. -/
theorem fingerprint (recorded : Recorded openssl Allowed base calls) {text : Option Bytes}
    (member : .peerFingerprint text ∈ calls) :
    .peerFingerprint text ∈ base ∨ ∃ engine, (openssl.peerFingerprint engine).1 = text := by
  induction recorded with
  | start => exact .inl member
  | newSession _ inductionHypothesis
  | write _ _ _ inductionHypothesis =>
      cases member with
      | tail _ earlier => exact inductionHypothesis earlier
  | peerFingerprint engine _ inductionHypothesis =>
      cases member with
      | head => exact .inr ⟨engine, rfl⟩
      | tail _ earlier => exact inductionHypothesis earlier

theorem mono {Weaker : List TlsCall → Bytes → Prop}
    (recorded : Recorded openssl Allowed base calls)
    (implies : ∀ calls chunk, Allowed calls chunk → Weaker calls chunk) :
    Recorded openssl Weaker base calls := by
  induction recorded with
  | start => exact .start
  | newSession _ inductionHypothesis => exact inductionHypothesis.newSession
  | peerFingerprint engine _ inductionHypothesis =>
      exact inductionHypothesis.peerFingerprint engine
  | write chunk allowed _ inductionHypothesis =>
      exact inductionHypothesis.write chunk (implies _ chunk allowed)

theorem sends (Piece : Bytes → Prop)
    (allows : ∀ calls chunk, Piece chunk → Allowed calls chunk) :
    Sends env.recorded (fun _ => True) Piece
      fun engine _ _ => Recorded env.openssl Allowed base engine.2 where
  effect := fun _ _ recorded => recorded
  write := fun chunk piece recorded => recorded.write chunk (allows _ chunk piece)
  errorText := fun recorded => recorded
  shutdown := fun recorded => recorded
  empty := fun _ _ => trivial
  short := fun _ _ _ recorded => recorded
  flushed := fun _ _ _ _ _ _ _ recorded => recorded
  drained := fun _ _ _ => trivial

end Recorded

/-- Which chunks the callback of an event encrypts: that of a found share reads the submit line
of the share, any other one reads a login line. -/
def WrittenIn (env : Env Engine) (Login : List TlsCall → Bytes → Prop)
    (before : Sys (Engine × List TlsCall)) (input : Input) (earlier : List TlsCall)
    (chunk : Bytes) : Prop :=
  match input.event with
  | .foundResult res =>
      before.app.pool.state = .hasJob ∧
        LineRead env
          (submitLine before.app.pool.poolMinerId res
            ((before.answering input).registration .result res.minerId).2.1) chunk
  | _ => Login earlier chunk

theorem writtenIn_foundResult {env : Env Engine} {Login : List TlsCall → Bytes → Prop}
    {before : Sys (Engine × List TlsCall)} {input : Input} {res : MinerResult}
    (event : input.event = .foundResult res) (earlier : List TlsCall) (chunk : Bytes) :
    WrittenIn env Login before input earlier chunk ↔
      before.app.pool.state = .hasJob ∧
        LineRead env
          (submitLine before.app.pool.poolMinerId res
            ((before.answering input).registration .result res.minerId).2.1) chunk := by
  simp only [WrittenIn, event]

theorem writtenIn_other {env : Env Engine} {Login : List TlsCall → Bytes → Prop}
    {before : Sys (Engine × List TlsCall)} {input : Input}
    (other : ¬∃ res, input.event = .foundResult res) (earlier : List TlsCall) (chunk : Bytes) :
    WrittenIn env Login before input earlier chunk ↔ Login earlier chunk := by
  unfold WrittenIn
  split
  · exact absurd ⟨_, ‹_›⟩ other
  · exact .rfl

/-- An `SSL_write` behind the calls `earlier` was made in a step of the run that leads to `sys`,
and it is one that the step may make. -/
def MadeInRun (env : Env Engine) (Login : List TlsCall → Bytes → Prop)
    (sys : Sys (Engine × List TlsCall)) (earlier : List TlsCall) (chunk : Bytes) : Prop :=
  ∃ before input after, (recordedMachine env).Reachable before ∧
    (recordedMachine env).Step before input after ∧ (recordedMachine env).Steps after sys ∧
    before.calls <:+ earlier ∧ (.write chunk :: earlier) <:+ after.calls ∧
    WrittenIn env Login before input earlier chunk

section Runs

variable {env : Env Engine} {sys : Sys (Engine × List TlsCall)}

theorem MadeInRun.step {Login : List TlsCall → Bytes → Prop}
    {next : Sys (Engine × List TlsCall)} {input : Input} {earlier : List TlsCall} {chunk : Bytes}
    (made : MadeInRun env Login sys earlier chunk)
    (stepped : (recordedMachine env).Step sys input next) :
    MadeInRun env Login next earlier chunk := by
  obtain ⟨before, first, after, reachable, step, steps, rest⟩ := made
  exact ⟨before, first, after, reachable, step, steps.tail stepped, rest⟩

theorem MadeInRun.imp {Login Weaker : List TlsCall → Bytes → Prop} {earlier : List TlsCall}
    {chunk : Bytes} (made : MadeInRun env Login sys earlier chunk)
    (implies : Login earlier chunk → Weaker earlier chunk) :
    MadeInRun env Weaker sys earlier chunk := by
  obtain ⟨before, input, after, reachable, step, steps, first, last, written⟩ := made
  refine ⟨before, input, after, reachable, step, steps, first, last, ?_⟩
  by_cases found : ∃ res, input.event = .foundResult res
  · obtain ⟨res, event⟩ := found
    exact (writtenIn_foundResult event _ _).mpr ((writtenIn_foundResult event _ _).mp written)
  · exact (writtenIn_other found _ _).mpr (implies ((writtenIn_other found _ _).mp written))

end Runs

def Sys.unrecorded : Sys ((Bytes × Bytes) × List TlsCall) :=
  { Sys.ledger with
    tls :=
      { ssl := false
        bio := false
        handshakeComplete := false
        ptBuf := default
        ptPos := 0
        engine := (([], []), []) } }

end EpicMiner.EventLoop
