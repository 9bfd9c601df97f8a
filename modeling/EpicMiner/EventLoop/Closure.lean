import EpicMiner.EventLoop.Receive

/-!
Owns the composition of facts about the code inside the callbacks. A behaviour
is checked once against the elementary updates of `Core` and `Closed`; every
function of the sending and the receiving half then behaves. An invariant is
the behaviour "kept from before to after".

The callbacks themselves, and the requests they set or clear, are not covered:
each of them is a few lines over the functions treated here.
-/

namespace EpicMiner.EventLoop

open EpicMiner.Library
open EpicMiner.Library.Program
open EpicMiner.Data

variable {Engine : Type}

/-! ## Elementary updates -/

namespace Sys

def logged (effect : Effect) (sys : Sys Engine) : Sys Engine :=
  { sys with app := sys.app.record effect }

def shutdownAccepted (sys : Sys Engine) : Bool :=
  sys.uv.acceptsShutdown && sys.uv.connected

/-- `do_shutdown` behind its guard. -/
def shutdownStarted (sys : Sys Engine) : Sys Engine :=
  { sys with
    app := sys.app.record (.uvShutdown sys.shutdownAccepted)
    net := { sys.net with shuttingDown := true, rShutdown := true }
    uv := { sys.uv with shutdown := sys.uv.shutdown || sys.shutdownAccepted } }

def withState (state : PoolState) (sys : Sys Engine) : Sys Engine :=
  { sys with app := sys.app.setPool fun pool => { pool with state := state } }

/-- `net_on_error` after its `do_disconnect`. -/
def jobDropped (sys : Sys Engine) : Sys Engine :=
  { sys with
    app := (sys.app.setPool fun pool =>
      { pool with state := .idle, myJob := pool.myJob.reset }).record (.shared .storeNonce) }

def withSlot (idx : Fin 4) (update : SendSt → SendSt) (sys : Sys Engine) : Sys Engine :=
  { sys with
    net := { sys.net with
      sendBufs := Function.update sys.net.sendBufs idx (update (sys.net.sendBufs idx)) } }

/-- A filled slot is handed to `uv_write`. -/
def handedOver (idx : Fin 4) (len : Nat) (sys : Sys Engine) : Sys Engine :=
  let held := sys.withSlot idx fun slot => { slot with rSend := true }
  { held with
    uv := { sys.uv with
      writes := Function.update sys.uv.writes idx (sys.uv.acceptsWrite idx) }
    app := sys.app.record
      (.uvWrite idx ((held.net.sendBufs idx).data.slice 0 len) len (sys.uv.acceptsWrite idx)) }

def withTls (update : TlsInterface Engine → TlsInterface Engine) (sys : Sys Engine) : Sys Engine :=
  { sys with tls := update sys.tls }

def withReceived (recvBuf : Buffer 4096) (recvPos : Nat) (sys : Sys Engine) : Sys Engine :=
  { sys with net := { sys.net with recvBuf := recvBuf, recvPos := recvPos } }

/-- What `register_call` answers: its flag, the out parameter and the map. -/
def registration (type : CallTypes) (minerId : UInt32) (sys : Sys Engine) :
    Bool × UInt32 × CallMap :=
  sys.app.pool.calls.registerCall type sys.app.uninitialised sys.app.now minerId

def loginMade (sys : Sys Engine) : Sys Engine :=
  let (_, callId, calls) := sys.registration .login invalidMinerId
  { sys with
    app := (sys.app.setPool fun pool => { pool with calls := calls }).record (.login callId) }

def shareMade (res : MinerResult) (sys : Sys Engine) : Sys Engine :=
  let (_, callId, calls) := sys.registration .result res.minerId
  { sys with
    app := ((sys.app.record (.share res)).setPool fun pool =>
      { pool with calls := calls, pingCallId := callId, pingTimestamp := sys.app.now }).record
        (.submit callId res) }

end Sys

section Specs

variable {sys : Sys Engine} {post : Unit → Sys Engine → Prop} {fault : Fault → Prop}

theorem ensures_record (effect : Effect) :
    Ensures (record effect) sys post fault ↔ post () (sys.logged effect) :=
  Iff.rfl

theorem ensures_setTls (update : TlsInterface Engine → TlsInterface Engine) :
    Ensures (setTls update) sys post fault ↔ post () (sys.withTls update) :=
  Iff.rfl

theorem ensures_setSlot (idx : Fin 4) (update : SendSt → SendSt) :
    Ensures (setSlot idx update) sys post fault ↔ post () (sys.withSlot idx update) :=
  Iff.rfl

theorem ensures_netDoShutdown :
    Ensures netDoShutdown sys post fault ↔
      (sys.net.shuttingDown = true → post () (sys.logged .shutdownCalled)) ∧
      (sys.net.shuttingDown = false → sys.net.rShutdown = false →
        post () (sys.logged .shutdownCalled).shutdownStarted) ∧
      (sys.net.shuttingDown = false → sys.net.rShutdown = true →
        fault (.assertion .shutdownIdle)) := by
  simp only [netDoShutdown, uvShutdown, ensures_bind, ensures_record, ensures_get, ensures_ite,
    ensures_pure, setNet, setUv, ensures_modify, ensures_throw]
  cases guard : sys.net.shuttingDown <;> cases request : sys.net.rShutdown <;>
    simp [guard, request, Sys.logged, Sys.shutdownStarted, Sys.shutdownAccepted, App.record]

theorem run_prepareResult (res : MinerResult) :
    (liftApp (prepareResult res)).run sys =
      .ok ((sys.registration .result res.minerId).2.1, sys.shareMade res) :=
  rfl

end Specs

/-! ## Closed behaviours -/

def Lifecycle (fault : Fault) : Prop :=
  fault = .assertion .resolvIdle ∨ fault = .assertion .sockIdle ∨
    fault = .assertion .connIdle ∨ fault = .assertion .shutdownIdle

instance (fault : Fault) : Decidable (Lifecycle fault) := by
  unfold Lifecycle
  infer_instance

/-- The asserts about send slots. -/
def Sending (fault : Fault) : Prop :=
  fault = .assertion .sendActive ∨ fault = .assertion .sendIdle

instance (fault : Fault) : Decidable (Sending fault) := by
  unfold Sending
  infer_instance

def Harmless (fault : Fault) : Prop :=
  ¬ Lifecycle fault ∧ ¬ Sending fault

instance (fault : Fault) : Decidable (Harmless fault) := by
  unfold Harmless
  infer_instance

/-- Behaviours closed under the updates of the error and sending paths. -/
structure Core (behaviour : Behaviour Fault (Sys Engine)) : Prop where
  fault : ∀ sys failure, Harmless failure → behaviour.Fault sys failure
  sendIdle : ∀ sys idx, (sys.net.sendBufs idx).active = false →
    (sys.net.sendBufs idx).rSend = true → behaviour.Fault sys (.assertion .sendIdle)
  shutdownIdle : ∀ sys, sys.net.shuttingDown = false → sys.net.rShutdown = true →
    behaviour.Fault sys (.assertion .shutdownIdle)
  logError : ∀ sys text, behaviour.Change sys (sys.logged (.logError text))
  shutdownCalled : ∀ sys, behaviour.Change sys (sys.logged .shutdownCalled)
  shutdownStarted : ∀ sys, sys.net.shuttingDown = false → sys.net.rShutdown = false →
    behaviour.Change sys sys.shutdownStarted
  jobDropped : ∀ sys, sys.net.shuttingDown = true → behaviour.Change sys sys.jobDropped
  acquire : ∀ sys idx, (sys.net.sendBufs idx).active = false →
    behaviour.Change sys (sys.withSlot idx fun slot => { slot with active := true })
  fill : ∀ sys idx data, (sys.net.sendBufs idx).active = true →
    behaviour.Change sys (sys.withSlot idx fun slot => { slot with data := slot.data.write 0 data })
  handOver : ∀ sys idx len, (sys.net.sendBufs idx).active = true →
    (sys.net.sendBufs idx).rSend = false → behaviour.Change sys (sys.handedOver idx len)
  engine : ∀ sys engine,
    behaviour.Change sys (sys.withTls fun tls => { tls with engine := engine })

/-- `program` behaves and ends with the shutdown under way. -/
abbrev Shuts (behaviour : Behaviour Fault (Sys Engine)) (program : Loop Engine Unit) : Prop :=
  ∀ sys, behaviour.Ends program sys fun _ next => next.net.shuttingDown = true

theorem Shuts.within {behaviour : Behaviour Fault (Sys Engine)} {program : Loop Engine Unit}
    (shuts : Shuts behaviour program) : behaviour.Within program :=
  fun sys => (shuts sys).trivial

theorem Shuts.excusing {behaviour : Behaviour Fault (Sys Engine)} {program : Loop Engine Unit}
    (Excused : Fault → Prop) (shuts : Shuts behaviour program) :
    Shuts (behaviour.excusing Excused) program :=
  fun sys => (shuts sys).excusing

/-- The fault of handing over a slot that is free in `sys` while its request is
in use. It counts where the slot was acquired. -/
def StaleRequest (sys : Sys Engine) (failure : Fault) : Prop :=
  failure = .assertion .sendIdle ∧
    ∃ idx, (sys.net.sendBufs idx).active = false ∧ (sys.net.sendBufs idx).rSend = true

/-- The same updates with the engine changed by the named calls only: those of the error
path and of the flush. -/
structure Serving (env : Env Engine) (behaviour : Behaviour Fault (Sys Engine)) : Prop where
  nullPointer : ∀ sys, behaviour.Fault sys .nullPointer
  sendIdle : ∀ sys idx, (sys.net.sendBufs idx).active = false →
    (sys.net.sendBufs idx).rSend = true → behaviour.Fault sys (.assertion .sendIdle)
  shutdownIdle : ∀ sys, sys.net.shuttingDown = false → sys.net.rShutdown = true →
    behaviour.Fault sys (.assertion .shutdownIdle)
  logError : ∀ sys text, behaviour.Change sys (sys.logged (.logError text))
  shutdownCalled : ∀ sys, behaviour.Change sys (sys.logged .shutdownCalled)
  shutdownStarted : ∀ sys, sys.net.shuttingDown = false → sys.net.rShutdown = false →
    behaviour.Change sys sys.shutdownStarted
  jobDropped : ∀ sys, sys.net.shuttingDown = true → behaviour.Change sys sys.jobDropped
  acquire : ∀ sys idx, (sys.net.sendBufs idx).active = false →
    behaviour.Change sys (sys.withSlot idx fun slot => { slot with active := true })
  fill : ∀ sys idx data, (sys.net.sendBufs idx).active = true →
    behaviour.Change sys (sys.withSlot idx fun slot => { slot with data := slot.data.write 0 data })
  handOver : ∀ sys idx len, (sys.net.sendBufs idx).active = true →
    (sys.net.sendBufs idx).rSend = false → behaviour.Change sys (sys.handedOver idx len)
  errorText : ∀ sys, behaviour.Change sys
    (sys.withTls fun tls => { tls with engine := (env.openssl.errorText sys.tls.engine).2 })
  bioRead : ∀ sys nwrt, behaviour.Change sys
    (sys.withTls fun tls =>
      { tls with engine := (env.openssl.bioRead sys.tls.engine nwrt).2.2 })

/-- With `SSL_shutdown`, the engine calls of a shutdown. -/
structure Shutting (env : Env Engine) (behaviour : Behaviour Fault (Sys Engine)) : Prop
    extends Serving env behaviour where
  stackOverflow : ∀ sys, behaviour.Fault sys .stackOverflow
  shutdown : ∀ sys, behaviour.Change sys
    (sys.withTls fun tls => { tls with engine := env.openssl.shutdown tls.engine })

/-- With `SSL_write`, the engine calls of a message that is sent. A behaviour may look at the
shutdown as a whole. -/
structure Writing (env : Env Engine) (behaviour : Behaviour Fault (Sys Engine)) : Prop
    extends Serving env behaviour where
  stuckLoop : ∀ sys, behaviour.Fault sys .stuckLoop
  write : ∀ sys chunk, behaviour.Change sys
    (sys.withTls fun tls => { tls with engine := (env.openssl.write sys.tls.engine chunk).2 })
  doShutdown : Shuts behaviour (doShutdown env)

namespace Serving

variable {env : Env Engine} {behaviour : Behaviour Fault (Sys Engine)}
  (serving : Serving env behaviour)

include serving

theorem excusing (Excused : Fault → Prop) : Serving env (behaviour.excusing Excused) where
  nullPointer := fun sys => .inl (serving.nullPointer sys)
  sendIdle := fun sys idx free request => .inl (serving.sendIdle sys idx free request)
  shutdownIdle := fun sys down request => .inl (serving.shutdownIdle sys down request)
  logError := serving.logError
  shutdownCalled := serving.shutdownCalled
  shutdownStarted := serving.shutdownStarted
  jobDropped := serving.jobDropped
  acquire := serving.acquire
  fill := serving.fill
  handOver := serving.handOver
  errorText := serving.errorText
  bioRead := serving.bioRead

theorem staleRequest (sys : Sys Engine) (failure : Fault) (stale : StaleRequest sys failure) :
    behaviour.Fault sys failure := by
  obtain ⟨rfl, idx, free, request⟩ := stale
  exact serving.sendIdle sys idx free request

theorem nullPointerThrown {α : Type} {sys : Sys Engine} {post : α → Sys Engine → Prop} :
    behaviour.Ends (throw .nullPointer) sys post :=
  (ensures_throw _ sys _).mpr (serving.nullPointer sys)

theorem netDoShutdown : Shuts behaviour netDoShutdown := by
  intro sys
  refine ensures_netDoShutdown.mpr ⟨?_, ?_, ?_⟩
  · intro guard
    exact ⟨serving.shutdownCalled sys, guard⟩
  · intro guard request
    exact ⟨behaviour.trans (serving.shutdownCalled sys) (serving.shutdownStarted _ guard request), rfl⟩
  · exact serving.shutdownIdle sys

variable {shutdown : Loop Engine Unit} (shuts : Shuts behaviour shutdown)

include shuts

theorem netOnError (err : Bytes) : Shuts behaviour (netOnError env shutdown err) := by
  intro sys
  apply Behaviour.Ends.step rfl (serving.logError sys _)
  apply (shuts _).bind
  intro _ next shutting
  exact ⟨serving.jobDropped next shutting, shutting⟩

theorem getTlsError : Shuts behaviour (getTlsError env shutdown) := by
  intro sys
  apply Behaviour.Ends.get_bind
  apply Behaviour.Ends.step rfl (serving.errorText sys)
  exact serving.netOnError shuts _ _

omit shuts in
theorem getSendBuffer (sys : Sys Engine) :
    behaviour.Ends getSendBuffer sys fun taken next => ∀ idx, taken = some idx →
      (next.net.sendBufs idx).active = true ∧
        ((next.net.sendBufs idx).rSend = true → StaleRequest sys (.assertion .sendIdle)) := by
  apply Behaviour.Ends.get_bind
  dsimp only
  cases found : (List.finRange 4).find? fun idx => !(sys.net.sendBufs idx).active with
  | none => exact Behaviour.Ends.pure (by simp)
  | some idx =>
      have free : (sys.net.sendBufs idx).active = false := by simpa using List.find?_some found
      refine Behaviour.Ends.step rfl (serving.acquire sys idx free) ?_
      refine Behaviour.Ends.pure ?_
      rintro other same
      cases same
      refine ⟨by simp, fun request => ⟨rfl, idx, free, by simpa using request⟩⟩

omit shuts in
theorem finalizeSocketWrite (idx : Fin 4) {len : Nat} (filled : len ≠ 0) (sys : Sys Engine)
    (active : (sys.net.sendBufs idx).active = true)
    (stale : (sys.net.sendBufs idx).rSend = true →
      behaviour.Fault sys (.assertion .sendIdle)) :
    behaviour.Ends (finalizeSocketWrite idx len) sys fun _ _ => True := by
  apply Behaviour.Ends.get_bind
  refine Behaviour.Ends.ite (fun free => ?_) fun _ => ?_
  · rw [active] at free
    cases free
  refine Behaviour.Ends.ite (fun empty => absurd empty filled) fun _ => ?_
  apply Behaviour.Ends.get_bind
  refine Behaviour.Ends.ite (fun request => ?_) fun request => ?_
  · exact (ensures_throw _ sys _).mpr (stale request)
  · exact ⟨serving.handOver sys idx len active (by simpa using request), trivial⟩

theorem flushTlsPending : behaviour.Within (flushTlsPending env shutdown) := by
  intro sys
  apply Behaviour.Ends.get_bind
  refine Behaviour.Ends.ite (fun _ => Behaviour.Ends.pure trivial) fun filled => ?_
  apply Behaviour.Ends.of_excusing _ (serving.staleRequest sys)
  have serving := serving.excusing (StaleRequest sys)
  have shuts := shuts.excusing (StaleRequest sys)
  apply (serving.getSendBuffer sys).bind
  intro taken next acquired
  cases taken with
  | none => exact serving.nullPointerThrown
  | some idx =>
      obtain ⟨isActive, stale⟩ := acquired idx rfl
      refine Behaviour.Ends.ite (fun _ => ?_) fun _ => ?_
      · exact (serving.netOnError shuts _ next).bind fun _ later _ => shuts.within later
      · apply Behaviour.Ends.get_bind
        apply Behaviour.Ends.step rfl (serving.bioRead next _)
        refine Behaviour.Ends.step rfl (serving.fill _ idx _ isActive) ?_
        refine Behaviour.Ends.ite (fun _ => ?_) fun _ => ?_
        · exact (serving.getTlsError shuts _).bind fun _ later _ => shuts.within later
        · apply serving.finalizeSocketWrite idx filled
          · simpa [Sys.withSlot, Sys.withTls] using isActive
          · intro request
            exact .inr (stale (by simpa [Sys.withSlot, Sys.withTls] using request))

end Serving

namespace Shutting

variable {env : Env Engine} {behaviour : Behaviour Fault (Sys Engine)}
  (shutting : Shutting env behaviour)

include shutting

theorem tlsDoShutdown (depth : Nat) : Shuts behaviour (tlsDoShutdown env depth) := by
  induction depth with
  | zero => exact fun sys => (ensures_throw _ sys _).mpr (shutting.stackOverflow sys)
  | succ depth inductionHypothesis =>
      intro sys
      apply Behaviour.Ends.step rfl (shutting.shutdownCalled sys)
      apply Behaviour.Ends.get_bind
      refine Behaviour.Ends.ite (fun guard => Behaviour.Ends.pure guard) fun _ => ?_
      apply Behaviour.Ends.get_bind
      refine Behaviour.Ends.ite (fun _ => shutting.nullPointerThrown) fun _ => ?_
      apply Behaviour.Ends.step rfl (shutting.shutdown _)
      apply (shutting.flushTlsPending inductionHypothesis _).bind
      intro _ later _
      exact shutting.netDoShutdown later

theorem doShutdown : Shuts behaviour (doShutdown env) := by
  unfold EventLoop.doShutdown
  split
  · exact shutting.tlsDoShutdown env.stack
  · exact shutting.netDoShutdown

end Shutting

theorem Core.shutting {behaviour : Behaviour Fault (Sys Engine)} (core : Core behaviour)
    (env : Env Engine) : Shutting env behaviour where
  nullPointer := fun sys => core.fault sys _ (by decide)
  stackOverflow := fun sys => core.fault sys _ (by decide)
  sendIdle := core.sendIdle
  shutdownIdle := core.shutdownIdle
  logError := core.logError
  shutdownCalled := core.shutdownCalled
  shutdownStarted := core.shutdownStarted
  jobDropped := core.jobDropped
  acquire := core.acquire
  fill := core.fill
  handOver := core.handOver
  errorText := fun sys => core.engine sys _
  shutdown := fun sys => core.engine sys _
  bioRead := fun sys _ => core.engine sys _

theorem Core.writing {behaviour : Behaviour Fault (Sys Engine)} (core : Core behaviour)
    (env : Env Engine) : Writing env behaviour where
  toServing := (core.shutting env).toServing
  stuckLoop := fun sys => core.fault sys _ (by decide)
  write := fun sys _ => core.engine sys _
  doShutdown := (core.shutting env).doShutdown

namespace Writing

variable {env : Env Engine} {behaviour : Behaviour Fault (Sys Engine)}
  (writing : Writing env behaviour)

include writing

theorem tlsFail : Shuts behaviour (tlsFail env) := fun sys =>
  (writing.getTlsError writing.doShutdown sys).bind fun _ later _ => writing.doShutdown later

theorem tlsWriteFrom (data : Bytes) (len fuel : Nat) (offset : Int) :
    behaviour.Within (tlsWriteFrom env data len fuel offset) := by
  induction fuel generalizing offset with
  | zero => exact fun sys => (ensures_throw _ sys _).mpr (writing.stuckLoop sys)
  | succ fuel inductionHypothesis =>
      intro sys
      refine Behaviour.Ends.ite (fun _ => ?_) fun _ => Behaviour.Ends.pure trivial
      have continued : ∀ offset : Int, behaviour.Within (do
          EventLoop.flushTlsPending env (EventLoop.doShutdown env)
          EventLoop.tlsWriteFrom env data len fuel offset) :=
        fun offset => (writing.flushTlsPending writing.doShutdown).bind fun _ =>
          inductionHypothesis offset
      apply Behaviour.Ends.get_bind
      apply Behaviour.Ends.step rfl (writing.write sys _)
      refine Behaviour.Ends.ite (fun _ => ?_) fun _ => continued _ _
      apply (writing.getTlsError writing.doShutdown _).bind
      intro _ failed _
      apply (writing.doShutdown failed).bind
      intro _ later _
      exact continued _ later

theorem sendLine {line : Bytes} (nonempty : line ≠ []) :
    behaviour.Within (sendLine env line) := by
  intro sys
  refine Behaviour.Ends.ite (fun _ => writing.tlsWriteFrom _ _ _ _ sys) fun _ => ?_
  apply Behaviour.Ends.of_excusing _ (writing.staleRequest sys)
  have writing := writing.excusing (StaleRequest sys)
  apply (writing.getSendBuffer sys).bind
  intro taken next acquired
  cases taken with
  | none => exact writing.nullPointerThrown
  | some idx =>
      obtain ⟨isActive, stale⟩ := acquired idx rfl
      apply Behaviour.Ends.step rfl (writing.fill next idx _ isActive)
      apply writing.finalizeSocketWrite idx (mt List.length_eq_zero_iff.mp nonempty)
      · simpa [Sys.withSlot] using isActive
      · intro request
        exact .inr (stale (by simpa [Sys.withSlot] using request))

end Writing

namespace Core

variable {env : Env Engine} {behaviour : Behaviour Fault (Sys Engine)} (core : Core behaviour)
  {shutdown : Loop Engine Unit} (shuts : Shuts behaviour shutdown)

include core

theorem throw {α : Type} {failure : Fault} (harmless : Harmless failure) {sys : Sys Engine}
    {post : α → Sys Engine → Prop} : behaviour.Ends (throw failure) sys post :=
  (ensures_throw failure sys _).mpr (core.fault sys failure harmless)

theorem doShutdown : Shuts behaviour (doShutdown env) :=
  (core.writing env).doShutdown

theorem tlsFail : Shuts behaviour (tlsFail env) :=
  (core.writing env).tlsFail

theorem sendLine {line : Bytes} (nonempty : line ≠ []) :
    behaviour.Within (sendLine env line) :=
  (core.writing env).sendLine nonempty

include shuts

theorem netOnError (err : Bytes) : Shuts behaviour (netOnError env shutdown err) :=
  (core.writing env).netOnError shuts err

theorem getTlsError : Shuts behaviour (getTlsError env shutdown) :=
  (core.writing env).getTlsError shuts

theorem flushTlsPending : behaviour.Within (flushTlsPending env shutdown) :=
  (core.writing env).flushTlsPending shuts

end Core

end EpicMiner.EventLoop
