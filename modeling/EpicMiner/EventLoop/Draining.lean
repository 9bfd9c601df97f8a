import EpicMiner.EventLoop.Turns

/-!
Owns the record layer under the TLS path, as what is assumed of OpenSSL, and the code that
does not read from it: the handshake, and every callback apart from a read, leaves the
records of a live connection as they are.
-/

namespace EpicMiner.EventLoop

open EpicMiner.Library
open EpicMiner.Library.Program
open EpicMiner.Data

variable {Engine : Type}

/-! ## The handshake -/

/-- With the engine calls of the handshake, the updates that end it and greet the server. -/
structure Handshaking (env : Env Engine) (behaviour : Behaviour Fault (Sys Engine)) : Prop
    extends Writing env behaviour where
  doHandshake : ∀ sys, behaviour.Change sys
    (sys.withTls fun tls => { tls with engine := (env.openssl.doHandshake sys.tls.engine).2 })
  peerFingerprint : ∀ sys, behaviour.Change sys
    (sys.withTls fun tls => { tls with engine := (env.openssl.peerFingerprint sys.tls.engine).2 })
  complete : ∀ sys,
    behaviour.Change sys (sys.withTls fun tls => { tls with handshakeComplete := true })
  welcomed : ∀ sys, behaviour.Change sys (sys.withState .connected)
  loginMade : ∀ sys, behaviour.Change sys sys.loginMade

namespace Handshaking

variable {env : Env Engine} {behaviour : Behaviour Fault (Sys Engine)}
  (handshaking : Handshaking env behaviour)

include handshaking

theorem netOnConnect (tlsFp : Option Bytes) : behaviour.Within (netOnConnect env tlsFp) := by
  intro sys
  refine Behaviour.Ends.ite (fun _ => ?_) fun _ => ?_
  · exact (handshaking.netOnError handshaking.doShutdown _).within sys
  · apply Behaviour.Ends.step rfl (handshaking.welcomed sys)
    apply Behaviour.Ends.step rfl (handshaking.loginMade _)
    exact handshaking.sendLine (loginLine_ne_nil env _) _

theorem finishHandshake (rv : Int) : behaviour.Within (finishHandshake env rv) := by
  intro sys
  apply Behaviour.Ends.bind (handshaking.flushTlsPending handshaking.doShutdown sys)
  intro _ next _
  refine Behaviour.Ends.ite (fun _ => ?_) fun _ => Behaviour.Ends.pure trivial
  refine Behaviour.Ends.step rfl (handshaking.complete next) (Behaviour.Ends.get_bind ?_)
  apply Behaviour.Ends.step rfl (handshaking.peerFingerprint _)
  split
  · exact handshaking.tlsFail.within _
  · exact handshaking.netOnConnect _ _

theorem doSslHandshake : behaviour.Within (doSslHandshake env) := by
  intro sys
  apply Behaviour.Ends.get_bind
  apply Behaviour.Ends.step rfl (handshaking.doHandshake sys)
  refine Behaviour.Ends.ite (fun _ => ?_) fun _ => handshaking.finishHandshake _ _
  exact (handshaking.tlsFail.within _).bind fun _ next _ => handshaking.finishHandshake _ next

end Handshaking

/-! ## The record layer -/

/-- What is assumed of OpenSSL: the application records that were received and not yet read,
and what the calls of the interface make of them. `SSL_read` returns data of one record, and
the BIO pair takes all bytes offered. -/
structure RecordLayer (openssl : OpenSsl Engine) where
  /-- The plaintexts of the complete records that wait for `SSL_read`, in order. -/
  records : Engine → List Bytes
  nonempty : ∀ engine, ∀ record ∈ records engine, record ≠ []
  newSession : ∀ engine, (openssl.newSession engine).1 = true →
    records (openssl.newSession engine).2 = []
  newBioPair : ∀ engine, records (openssl.newBioPair engine).2 = records engine
  doHandshake : ∀ engine, records (openssl.doHandshake engine).2 = records engine
  peerFingerprint : ∀ engine, records (openssl.peerFingerprint engine).2 = records engine
  errorText : ∀ engine, records (openssl.errorText engine).2 = records engine
  write : ∀ engine chunk, records (openssl.write engine chunk).2 = records engine
  bioRead : ∀ engine len, records (openssl.bioRead engine len).2.2 = records engine
  bioWrite : ∀ engine data, data ≠ [] → (openssl.bioWrite engine data).1 = data.length
  read_none : ∀ engine room, records engine = [] →
    (openssl.read engine room).1 ≤ 0 ∧ records (openssl.read engine room).2.2 = []
  /-- A record that fits the buffer is returned whole. -/
  read_whole : ∀ engine record rest room, records engine = record :: rest →
    record.length ≤ room →
    (openssl.read engine room).1 = record.length ∧ (openssl.read engine room).2.1 = record ∧
      records (openssl.read engine room).2.2 = rest

namespace RecordLayer

variable {env : Env Engine} (layer : RecordLayer env.openssl)

/-- While the connection is not being shut down, `pos` bytes of ciphertext lie in its buffer,
and no record waits. -/
def Drained (pos : Nat) (sys : Sys Engine) : Prop :=
  sys.net.shuttingDown = false → sys.net.recvPos = pos ∧
    (sys.uv.reading = true → layer.records sys.tls.engine = [])

def draining (pos : Nat) : Behaviour Fault (Sys Engine) :=
  .keeping (layer.Drained pos) fun _ => False

theorem drained_of_down {pos : Nat} {sys : Sys Engine} (down : sys.net.shuttingDown = true) :
    layer.Drained pos sys :=
  fun up => absurd (down.symm.trans up) (by decide)

variable {layer} in
theorem Drained.of_engine {pos : Nat} {sys : Sys Engine} {engine : Engine}
    (drained : layer.Drained pos sys)
    (same : layer.records engine = layer.records sys.tls.engine) :
    layer.Drained pos (sys.withTls fun tls => { tls with engine := engine }) :=
  fun up => ⟨(drained up).1, fun reading => same.trans ((drained up).2 reading)⟩

/-- A shutdown that ends is under way, whatever the engine does in it. -/
theorem draining_doShutdown (pos : Nat) : Shuts (layer.draining pos) (doShutdown env) :=
  fun sys => Ensures.imp (steady_core.doShutdown sys)
    (fun _ _ ended => ⟨fun _ => layer.drained_of_down ended.2, ended.2⟩) fun _ _ _ => id

theorem draining_handshaking (pos : Nat) : Handshaking env (layer.draining pos) where
  nullPointer := fun _ _ => id
  stuckLoop := fun _ _ => id
  sendIdle := fun _ _ _ _ _ => id
  shutdownIdle := fun _ _ _ _ => id
  logError := fun _ _ drained => drained
  shutdownCalled := fun _ drained => drained
  shutdownStarted := fun _ _ _ _ => layer.drained_of_down rfl
  jobDropped := fun _ _ drained => drained
  acquire := fun _ _ _ drained => drained
  fill := fun _ _ _ _ drained => drained
  handOver := fun _ _ _ _ _ drained => drained
  errorText := fun _ drained => drained.of_engine (layer.errorText _)
  bioRead := fun _ _ drained => drained.of_engine (layer.bioRead _ _)
  write := fun _ _ drained => drained.of_engine (layer.write _ _)
  doShutdown := layer.draining_doShutdown pos
  doHandshake := fun _ drained => drained.of_engine (layer.doHandshake _)
  peerFingerprint := fun _ drained => drained.of_engine (layer.peerFingerprint _)
  complete := fun _ drained => drained
  welcomed := fun _ drained => drained
  loginMade := fun _ drained => drained

/-! ## Code without a read -/

section Within

variable (pos : Nat)

theorem draining_failed (err : Bytes) :
    (layer.draining pos).Within (netOnError env (doShutdown env) err) :=
  ((layer.draining_handshaking pos).netOnError (layer.draining_doShutdown pos) err).within

theorem draining_checkCallTimeouts : (layer.draining pos).Within (checkCallTimeouts env) := by
  intro sys
  apply Behaviour.Ends.get_bind
  exact Behaviour.Ends.ite (fun _ => layer.draining_failed pos _ sys)
    fun _ => Behaviour.Ends.pure trivial

theorem draining_onSocketError (error : Int) :
    (layer.draining pos).Within (onSocketError env error) := by
  intro sys
  apply Behaviour.Ends.get_bind
  refine Behaviour.Ends.ite (fun _ => (layer.draining_doShutdown pos).within sys) fun _ => ?_
  exact (layer.draining_failed pos _ sys).bind fun _ next _ =>
    (layer.draining_doShutdown pos).within next

theorem draining_onSocketWriteSt (idx : Fin 4) (status : Int) :
    (layer.draining pos).Within (onSocketWriteSt env idx status) := by
  intro sys
  have ended : (layer.draining pos).Change sys (sys.writeEnded idx) := id
  apply Behaviour.Ends.step rfl ended
  refine Behaviour.Ends.ite (fun _ => ?_) fun _ => layer.draining_onSocketError pos status _
  apply Behaviour.Ends.get_bind
  refine Behaviour.Ends.ite (fun _ => ?_) fun _ => ⟨id, trivial⟩
  exact (ensures_throw ..).mpr fun _ => id

theorem draining_doSendResult (res : MinerResult) :
    (layer.draining pos).Within (doSendResult env res) := by
  intro sys
  apply Behaviour.Ends.get_bind
  refine Behaviour.Ends.ite (fun _ => Behaviour.Ends.pure trivial) fun _ => ?_
  have made : (layer.draining pos).Change sys (sys.shareMade res) := id
  refine Behaviour.Ends.step rfl made (Behaviour.Ends.get_bind ?_)
  exact (layer.draining_handshaking pos).sendLine (submitLine_ne_nil _ res _) _

end Within

/-! ## Callbacks without a read -/

section Callbacks

variable {sys : Sys Engine} (attached : Attached env sys)

theorem draining_dialWhenIdle : (layer.draining 0).Within dialWhenIdle := by
  intro sys
  apply Behaviour.Ends.get_bind
  refine Behaviour.Ends.ite (fun _ => ?_) fun _ => Behaviour.Ends.pure trivial
  exact ensures_poolDoConnect.mpr ⟨fun _ _ => id, fun _ => ⟨id, trivial⟩⟩

theorem draining_onHeartbeat : (layer.draining 0).Within (onHeartbeat env) := by
  intro sys
  apply Behaviour.Ends.get_bind
  refine Behaviour.Ends.ite (fun connected => ?_) fun _ => ?_
  · refine (layer.draining_checkCallTimeouts 0 sys).bind fun _ next _ => ?_
    refine Behaviour.Ends.ite (fun other => absurd connected other.1) fun _ => ?_
    exact Behaviour.Ends.pure trivial
  · exact Behaviour.Ends.ite (fun _ => layer.draining_dialWhenIdle sys)
      fun _ => Behaviour.Ends.pure trivial

theorem draining_onDnsResolved (res : List AddrInfo) (rand : Nat) :
    (layer.draining 0).Within (onDnsResolved env res rand) := by
  intro sys
  unfold onDnsResolved
  split
  · exact layer.draining_failed 0 _ sys
  · exact ensures_openSocket.mpr ⟨fun _ _ => id, fun _ _ _ => id, fun _ _ => ⟨id, trivial⟩⟩

theorem draining_onDnsResolvedSt (status : Int) (res : List AddrInfo) (rand : Nat) :
    (layer.draining 0).Within (onDnsResolvedSt env status res rand) := by
  intro sys
  have resolved : (layer.draining 0).Change sys
      { sys with uv := { sys.uv with dns := false } } := id
  have freed : (layer.draining 0).Within
      (setNet fun net => { net with rResolv := false } : Loop Engine Unit) :=
    fun _ => ⟨id, trivial⟩
  apply Behaviour.Ends.step rfl resolved
  exact Behaviour.Ends.ite
    (fun _ => ((layer.draining_onDnsResolved res rand).bind fun _ => freed) _)
    fun _ => ((layer.draining_failed 0 _).bind fun _ => freed) _

/-- A new session has no records, so reading may start. -/
theorem draining_tlsOnConnect (silent : sys.uv.reading = false) :
    (layer.draining 0).Ends (tlsOnConnect env) sys fun _ _ => True := by
  have handshaking := layer.draining_handshaking 0
  have unread : ∀ state next : Sys Engine, state.net = sys.net → next.net = sys.net →
      next.uv = sys.uv → (layer.draining 0).Change state next := by
    intro state next before net uv drained
    refine fun up => ⟨?_, fun on => ?_⟩
    · rw [net] at up ⊢
      rw [← before] at up ⊢
      exact (drained up).1
    · rw [uv, silent] at on
      cases on
  refine Behaviour.Ends.step rfl (unread _ _ rfl rfl rfl) (Behaviour.Ends.get_bind ?_)
  refine Behaviour.Ends.ite (fun _ => (ensures_throw ..).mpr fun _ => id) fun _ => ?_
  refine Behaviour.Ends.step rfl (unread _ _ rfl rfl rfl) ?_
  refine Behaviour.Ends.ite (fun _ => handshaking.tlsFail.within _) fun session => ?_
  refine Behaviour.Ends.get_bind (Behaviour.Ends.step rfl (unread _ _ rfl rfl rfl) ?_)
  refine Behaviour.Ends.ite (fun _ => handshaking.tlsFail.within _) fun _ => ?_
  refine Behaviour.Ends.step rfl ?_ (handshaking.doSslHandshake _)
  refine fun drained up => ⟨(drained up).1, fun _ => ?_⟩
  exact (layer.newBioPair _).trans (layer.newSession _ (by simpa using session))

theorem draining_onConnect (tls : env.useTls = true) (silent : sys.uv.reading = false) :
    (layer.draining 0).Ends (onConnect env) sys fun _ _ => True :=
  Behaviour.Ends.ite (fun _ => layer.draining_tlsOnConnect silent) fun plain => absurd tls plain

variable {layer}

include attached

theorem draining_onConnnectSt (tls : env.useTls = true) (status : Int)
    (due : sys.uv.conn = true) :
    (layer.draining 0).Ends (onConnnectSt env status) sys fun _ _ => True := by
  have silent := (attached.detached (attached.connecting due).1).2.1
  have answered : (layer.draining 0).Change sys
      { sys with uv := { sys.uv with conn := false, connected := decide (status = 0) } } := id
  apply Behaviour.Ends.step rfl answered
  refine Behaviour.Ends.ite (fun _ => ?_) fun _ => ?_
  · refine Behaviour.Ends.bind (layer.draining_onConnect tls silent) ?_
    exact fun _ _ _ => ⟨id, trivial⟩
  · apply Behaviour.Ends.bind (layer.draining_failed 0 _ _)
    exact fun _ _ _ => ⟨id, trivial⟩

theorem draining_onShutdownSt (due : sys.uv.shutdown = true) :
    (layer.draining 0).Ends onShutdownSt sys fun _ _ => True :=
  ensures_onShutdownSt.mpr
    ⟨fun _ => layer.drained_of_down (attached.shutting due).2, trivial⟩

theorem draining_onSocketClosed (due : sys.uv.closing = true) :
    (layer.draining 0).Ends (onSocketClosed env) sys fun _ _ => True := by
  obtain ⟨-, -, -, silent⟩ := attached.closing due
  refine (ensures_onSocketClosed env).mpr ⟨fun _ _ => ⟨rfl, fun on => ?_⟩, trivial⟩
  exact absurd (on.symm.trans silent) (by decide)

end Callbacks

end RecordLayer

end EpicMiner.EventLoop
