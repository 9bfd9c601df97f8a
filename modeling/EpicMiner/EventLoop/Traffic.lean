import EpicMiner.EventLoop.Turns
import EpicMiner.EventLoop.SendCalls

/-!
Owns the traffic of the TLS path: what OpenSSL is asked for, and what libuv is asked to write. A
relation between the two that every call of OpenSSL and every flush keeps is kept by all
callbacks; the wire is such a relation: it carries the ciphertext and nothing else.
-/

namespace EpicMiner.EventLoop

open EpicMiner.Library
open EpicMiner.Library.Program
open EpicMiner.Data

variable {Engine : Type}

/-! ## What the path keeps -/

/-- Entries that put something on the wire, or end it. -/
def Effect.isWiring : Effect → Bool
  | .uvWrite _ _ _ _ => true
  | .closed => true
  | _ => false

/-- The bytes that the write loop may read for a line: from some offset before its end on, in
the buffer that the line was printed to and in the memory around it. -/
def LineRead (env : Env Engine) (line chunk : Bytes) : Prop :=
  ∃ engine, ∃ offset : Int, offset < line.length ∧
    chunk = readFrom (env.memory engine) (snprintf 1024 line) offset (line.length - offset).toNat

/-- A relation between OpenSSL, the presence of its BIO pair and the log that sending keeps, as
long as only pieces of a given kind are encrypted. After a flush the engine is `Clean`. -/
structure Sends (env : Env Engine) (Clean : Engine → Prop) (Piece : Bytes → Prop)
    (Holds : Engine → Bool → List Effect → Prop) : Prop where
  effect : ∀ {engine bio log} (effect : Effect), effect.isWiring = false →
    Holds engine bio log → Holds engine bio (effect :: log)
  write : ∀ {engine bio log} (chunk : Bytes), Piece chunk → Holds engine bio log →
    Holds (env.openssl.write engine chunk).2 bio log
  errorText : ∀ {engine bio log}, Holds engine bio log →
    Holds (env.openssl.errorText engine).2 bio log
  shutdown : ∀ {engine bio log}, Holds engine bio log → Holds (env.openssl.shutdown engine) bio log
  empty : ∀ engine, env.openssl.bioPending engine = 0 → Clean engine
  short : ∀ {engine bio log}, bio = true → env.openssl.bioPending engine ≠ 0 →
    (env.openssl.bioRead engine (env.openssl.bioPending engine)).1 ≠
      env.openssl.bioPending engine →
    Holds engine bio log →
    Holds (env.openssl.bioRead engine (env.openssl.bioPending engine)).2.2 bio log
  flushed : ∀ {engine bio log} (slot : Nat) (sent : Bytes) (accepted : Bool), bio = true →
    env.openssl.bioPending engine ≠ 0 →
    (env.openssl.bioRead engine (env.openssl.bioPending engine)).1 =
      env.openssl.bioPending engine →
    ((env.openssl.bioRead engine (env.openssl.bioPending engine)).2.1.length =
        env.openssl.bioPending engine →
      sent = (env.openssl.bioRead engine (env.openssl.bioPending engine)).2.1) →
    Holds engine bio log →
    Holds (env.openssl.bioRead engine (env.openssl.bioPending engine)).2.2 bio
      (.uvWrite slot sent (env.openssl.bioPending engine) accepted :: log)
  drained : ∀ engine, env.openssl.bioPending engine ≠ 0 →
    (env.openssl.bioRead engine (env.openssl.bioPending engine)).1 =
      env.openssl.bioPending engine →
    Clean (env.openssl.bioRead engine (env.openssl.bioPending engine)).2.2

/-- The behaviour that keeps a relation. Faults end a run, so any of them will do. -/
def relating (Holds : Engine → Bool → List Effect → Prop) : Behaviour Fault (Sys Engine) :=
  .keeping (fun sys => Holds sys.tls.engine sys.tls.bio sys.app.log) fun _ => False

/-- OpenSSL is clean while its BIO pair is there and no shutdown is under way. -/
def Rests (Clean : Engine → Prop) (sys : Sys Engine) : Prop :=
  sys.tls.bio = true → sys.net.shuttingDown = false → Clean sys.tls.engine

theorem Rests.of_shuttingDown {Clean : Engine → Prop} {sys : Sys Engine}
    (down : sys.net.shuttingDown = true) : Rests Clean sys := by
  intro _ up
  rw [down] at up
  cases up

/-! ## The sending half -/

namespace Sends

variable {env : Env Engine} {Clean : Engine → Prop} {Piece : Bytes → Prop}
  {Holds : Engine → Bool → List Effect → Prop} (sends : Sends env Clean Piece Holds)

include sends

theorem logged (sys : Sys Engine) (effect : Effect) (other : effect.isWiring = false) :
    (relating Holds).Change sys (sys.logged effect) :=
  sends.effect effect other

theorem netDoShutdown : Shuts (relating Holds) netDoShutdown := by
  intro sys
  have called := sends.logged sys .shutdownCalled rfl
  refine ensures_netDoShutdown.mpr ⟨?_, ?_, ?_⟩
  · intro guard
    exact ⟨called, guard⟩
  · intro _ _
    refine ⟨fun holds => ?_, rfl⟩
    exact sends.effect (.uvShutdown _) rfl (called holds)
  · exact fun _ _ _ => id

section Shutdown

variable {shutdown : Loop Engine Unit} (shuts : Shuts (relating Holds) shutdown)

include shuts

theorem netOnError (err : Bytes) : Shuts (relating Holds) (netOnError env shutdown err) := by
  intro sys
  apply Behaviour.Ends.step rfl (sends.logged sys (.logError _) rfl)
  apply (shuts _).bind
  intro _ next shutting
  exact ⟨sends.effect (.shared .storeNonce) rfl, shutting⟩

theorem getTlsError : Shuts (relating Holds) (getTlsError env shutdown) := by
  intro sys
  have asked : (relating Holds).Change sys (sys.withTls fun tls =>
      { tls with engine := (env.openssl.errorText sys.tls.engine).2 }) := sends.errorText
  apply Behaviour.Ends.get_bind
  apply Behaviour.Ends.step rfl asked
  exact sends.netOnError shuts _ _

/-- The second half of a flush, on the slot it has taken. `BIO_read` and the hand-over are one
step of the relation. -/
theorem readPending (idx : Fin 4) {nwrt : Nat} (sys : Sys Engine) (bio : sys.tls.bio = true)
    (announced : nwrt = env.openssl.bioPending sys.tls.engine) (filled : nwrt ≠ 0)
    (fits : nwrt ≤ 2048) (active : (sys.net.sendBufs idx).active = true) :
    (relating Holds).Ends (do
      let (rv, data, engine) := env.openssl.bioRead sys.tls.engine nwrt
      setTls fun tls => { tls with engine := engine }
      setSlot idx fun slot => { slot with data := slot.data.write 0 data }
      if rv ≠ nwrt then
        EventLoop.getTlsError env shutdown
        shutdown
      else
        finalizeSocketWrite idx nwrt) sys fun _ next => Rests Clean next := by
  subst announced
  refine (ensures_bind_of_run rfl).mpr ((ensures_bind_of_run rfl).mpr ?_)
  refine (ensures_ite ..).mpr ⟨fun refused => ?_, fun full => ?_⟩
  · have failed : ∀ state, (relating Holds).Ends (do
        EventLoop.getTlsError env shutdown
        shutdown) state fun _ next => Rests Clean next := fun state =>
      (sends.getTlsError shuts state).bind fun _ later _ =>
        (shuts later).mono fun _ _ down => .of_shuttingDown down
    exact (failed _).after (sends.short bio filled refused)
  · refine (ensures_finalizeSocketWrite (by simpa using active)).mpr
      ⟨fun empty => absurd empty filled, fun _ _ _ => id, fun _ _ => ⟨fun holds => ?_, ?_⟩⟩
    · have written := Buffer.slice_write_self (sys.net.sendBufs idx).data 0
        (env.openssl.bioRead sys.tls.engine (env.openssl.bioPending sys.tls.engine)).2.1
      have flushed := sends.flushed idx
        (((sys.net.sendBufs idx).data.write 0
            (env.openssl.bioRead sys.tls.engine (env.openssl.bioPending sys.tls.engine)).2.1).slice
          0 (env.openssl.bioPending sys.tls.engine)) (sys.uv.acceptsWrite idx) bio filled
        (not_not.mp full)
        (fun whole => by rw [whole] at written; exact written (by omega)) holds
      simpa [Sys.handedOver, Sys.withSlot, App.record] using flushed
    · exact fun _ _ => sends.drained _ filled (not_not.mp full)

theorem flushTlsPending (sys : Sys Engine) :
    (relating Holds).Ends (flushTlsPending env shutdown) sys fun _ next => Rests Clean next := by
  apply Behaviour.Ends.get_bind
  refine Behaviour.Ends.ite (fun empty => Behaviour.Ends.pure fun bio _ => ?_) fun filled => ?_
  · exact sends.empty _ (by simpa [bio] using empty)
  have bio : sys.tls.bio = true := by
    by_contra off
    exact filled (by simp [off])
  simp only [bio, if_true] at filled ⊢
  have taken : (relating Holds).Ends getSendBuffer sys fun taken next =>
      next.tls = sys.tls ∧ ∀ idx, taken = some idx → (next.net.sendBufs idx).active = true := by
    refine ensures_getSendBuffer.mpr ⟨fun _ => ⟨id, rfl, ?_⟩, fun idx _ => ⟨id, rfl, ?_⟩⟩
    · intro other none
      cases none
    · intro other same
      cases same
      simp [Sys.acquired]
  apply taken.bind
  rintro taken next ⟨same, active⟩
  cases taken with
  | none => exact (ensures_throw ..).mpr fun _ => id
  | some idx =>
      refine Behaviour.Ends.ite (fun _ => ?_) fun fits => ?_
      · exact (sends.netOnError shuts _ next).bind fun _ later _ =>
          (shuts later).mono fun _ _ down => .of_shuttingDown down
      · apply Behaviour.Ends.get_bind
        exact sends.readPending shuts idx next (same ▸ bio) (by rw [same]) filled (by omega)
          (active idx rfl)

end Shutdown

theorem tlsDoShutdown (depth : Nat) : Shuts (relating Holds) (tlsDoShutdown env depth) := by
  induction depth with
  | zero => exact fun sys => (ensures_throw _ sys _).mpr fun _ => id
  | succ depth inductionHypothesis =>
      intro sys
      apply Behaviour.Ends.step rfl (sends.logged sys .shutdownCalled rfl)
      apply Behaviour.Ends.get_bind
      refine Behaviour.Ends.ite (fun guard => Behaviour.Ends.pure guard) fun _ => ?_
      apply Behaviour.Ends.get_bind
      refine Behaviour.Ends.ite (fun _ => (ensures_throw ..).mpr fun _ => id) fun _ => ?_
      have closed : ∀ state : Sys Engine, (relating Holds).Change state (state.withTls fun tls =>
          { tls with engine := env.openssl.shutdown tls.engine }) := fun _ => sends.shutdown
      apply Behaviour.Ends.step rfl (closed _)
      apply (sends.flushTlsPending inductionHypothesis _).bind
      intro _ later _
      exact sends.netDoShutdown later

theorem doShutdown : Shuts (relating Holds) (doShutdown env) := by
  unfold EventLoop.doShutdown
  split
  · exact sends.tlsDoShutdown _
  · exact sends.netDoShutdown

theorem failed (err : Bytes) :
    Shuts (relating Holds) (EventLoop.netOnError env (EventLoop.doShutdown env) err) :=
  sends.netOnError sends.doShutdown err

theorem flush (sys : Sys Engine) :
    (relating Holds).Ends (EventLoop.flushTlsPending env (EventLoop.doShutdown env)) sys
      fun _ next => Rests Clean next :=
  sends.flushTlsPending sends.doShutdown sys

theorem tlsFail : Shuts (relating Holds) (tlsFail env) := fun sys =>
  (sends.getTlsError sends.doShutdown sys).bind fun _ later _ => sends.doShutdown later

/-- The write loop encrypts what it reads of its buffer. Each round ends with a flush. -/
theorem tlsWriteFrom {data : Bytes} {len : Nat}
    (pieces : ∀ engine (offset : Int), offset < len →
      Piece (readFrom (env.memory engine) data offset (len - offset).toNat))
    (fuel : Nat) (offset : Int) (sys : Sys Engine) (rests : Rests Clean sys) :
    (relating Holds).Ends (tlsWriteFrom env data len fuel offset) sys
      fun _ next => Rests Clean next := by
  induction fuel generalizing offset sys with
  | zero => exact (ensures_throw _ sys _).mpr fun _ => id
  | succ fuel inductionHypothesis =>
      refine Behaviour.Ends.ite (fun more => ?_) fun _ => Behaviour.Ends.pure rests
      have continued : ∀ (offset : Int) state, (relating Holds).Ends (do
          EventLoop.flushTlsPending env (EventLoop.doShutdown env)
          EventLoop.tlsWriteFrom env data len fuel offset) state fun _ next => Rests Clean next :=
        fun offset state => (sends.flush state).bind fun _ next flushed =>
          inductionHypothesis offset next flushed
      have written : (relating Holds).Change sys (sys.withTls fun tls =>
          { tls with
            engine := (env.openssl.write sys.tls.engine (readFrom (env.memory sys.tls.engine) data
              offset (len - offset).toNat)).2 }) :=
        sends.write _ (pieces _ _ more)
      apply Behaviour.Ends.get_bind
      apply Behaviour.Ends.step rfl written
      refine Behaviour.Ends.ite (fun _ => ?_) fun _ => continued _ _
      apply (sends.getTlsError sends.doShutdown _).bind
      intro _ failed _
      apply (sends.doShutdown failed).bind
      intro _ later _
      exact continued _ later

theorem sendLine (tls : env.useTls = true) {line : Bytes}
    (pieces : ∀ chunk, LineRead env line chunk → Piece chunk) (sys : Sys Engine)
    (rests : Rests Clean sys) :
    (relating Holds).Ends (sendLine env line) sys fun _ next => Rests Clean next := by
  refine Behaviour.Ends.ite (fun _ => ?_) fun plain => absurd tls plain
  refine sends.tlsWriteFrom (fun engine offset more => ?_) _ _ sys rests
  exact pieces _ ⟨engine, offset, more, rfl⟩

/-- The callback of a found share. -/
theorem doSendResult (tls : env.useTls = true) (res : MinerResult) (sys : Sys Engine)
    (pieces : sys.app.pool.state = .hasJob → ∀ chunk,
      LineRead env (submitLine sys.app.pool.poolMinerId res
        (sys.registration .result res.minerId).2.1) chunk → Piece chunk)
    (rests : Rests Clean sys) :
    (relating Holds).Ends (doSendResult env res) sys fun _ next => Rests Clean next := by
  apply Behaviour.Ends.get_bind
  refine Behaviour.Ends.ite (fun _ => Behaviour.Ends.pure rests) fun hasJob => ?_
  have made : (relating Holds).Change sys (sys.shareMade res) := fun holds =>
    sends.effect (.submit _ res) rfl (sends.effect (.share res) rfl holds)
  refine Behaviour.Ends.step rfl made (Behaviour.Ends.get_bind ?_)
  exact sends.sendLine tls (pieces (not_not.mp hasJob)) (sys.shareMade res) rests

end Sends

/-! ## The receiving half -/

/-- A relation that the other calls of OpenSSL keep as well. The login line may be encrypted once
the engine is `Trusted`, which a matching fingerprint makes it. -/
structure Converses (env : Env Engine) (Clean Trusted : Engine → Prop)
    (Holds : Engine → Bool → List Effect → Prop) : Prop
    extends Sends env Clean (fun _ => False) Holds where
  login : Sends env Clean (fun chunk => ∃ callId, LineRead env (loginLine env callId) chunk)
    fun engine bio log => Holds engine bio log ∧ Trusted engine
  trusted : ∀ engine text, (env.openssl.peerFingerprint engine).1 = some text →
    env.config.tlsFp = [] ∨ text = env.config.tlsFp →
    Trusted (env.openssl.peerFingerprint engine).2
  newSession : ∀ {engine bio log}, bio = false → Holds engine bio log →
    Holds (env.openssl.newSession engine).2 bio log
  newBioPair : ∀ {engine bio log}, bio = false → Holds engine bio log →
    Holds (env.openssl.newBioPair engine).2 (env.openssl.newBioPair engine).1 log
  doHandshake : ∀ {engine bio log}, Holds engine bio log →
    Holds (env.openssl.doHandshake engine).2 bio log
  peerFingerprint : ∀ {engine bio log}, Holds engine bio log →
    Holds (env.openssl.peerFingerprint engine).2 bio log
  undisturbed : ∀ engine, Clean engine → Clean (env.openssl.peerFingerprint engine).2
  bioWrite : ∀ {engine bio log} (data : Bytes), Holds engine bio log →
    Holds (env.openssl.bioWrite engine data).2 bio log
  read : ∀ {engine bio log} (room : Nat), Holds engine bio log →
    Holds (env.openssl.read engine room).2.2 bio log
  closed : ∀ {engine bio log}, Holds engine bio log → Holds engine false (.closed :: log)

namespace Converses

variable {env : Env Engine} {Clean Trusted : Engine → Prop}
  {Holds : Engine → Bool → List Effect → Prop} (converses : Converses env Clean Trusted Holds)

include converses

theorem append {engine : Engine} {bio : Bool} {log : List Effect} (newer : List Effect)
    (others : ∀ effect ∈ newer, effect.isWiring = false) (holds : Holds engine bio log) :
    Holds engine bio (newer ++ log) := by
  induction newer with
  | nil => exact holds
  | cons effect newer inductionHypothesis =>
      refine converses.effect effect (others effect (by simp)) (inductionHypothesis ?_)
      intro other member
      exact others other (List.mem_cons_of_mem effect member)

theorem document (members : List (Bytes × Value)) (sys : Sys Engine) :
    (relating Holds).Ends (liftApp (processJsonDoc env.config (.object members))) sys
      fun _ _ => True := by
  refine Ends.document (fun _ _ _ => id) fun app handled holds => ?_
  obtain ⟨newer, log, handlings⟩ := handled.log
  have received : Holds sys.tls.engine sys.tls.bio (.document (.object members) :: sys.app.log) :=
    converses.effect _ rfl holds
  change Holds sys.tls.engine sys.tls.bio app.log
  rw [log]
  refine converses.append newer (fun effect member => ?_) received
  have handling := handlings effect member
  cases effect <;> first | rfl | cases handling

theorem failed (err : Bytes) (sys : Sys Engine) :
    (relating Holds).Ends (netOnError env (doShutdown env) err) sys
      fun _ next => Rests Clean next :=
  (converses.toSends.failed err sys).mono fun _ _ down => .of_shuttingDown down

theorem tlsFail (sys : Sys Engine) :
    (relating Holds).Ends (tlsFail env) sys fun _ next => Rests Clean next :=
  (converses.toSends.tlsFail sys).mono fun _ _ down => .of_shuttingDown down

theorem netOnDataRecv (data : Bytes) :
    (relating Holds).Within (netOnDataRecv env data) := by
  intro sys
  unfold EventLoop.netOnDataRecv
  have rejected : ∀ left : Bytes, (relating Holds).Within (do
      netOnError env (doShutdown env) (ascii "JSON parse error")
      return ((-1 : Int), left)) := fun left state =>
    (converses.failed _ state).bind fun _ _ _ => Behaviour.Ends.pure trivial
  split
  · exact Behaviour.Ends.pure trivial
  · dsimp only
    split
    · apply Behaviour.Ends.bind (converses.document _ sys)
      intro accepted next _
      exact Behaviour.Ends.ite (fun _ => Behaviour.Ends.pure trivial)
        fun _ => Behaviour.Ends.pure trivial
    · exact rejected _ sys

/-- The login line follows a fingerprint that matches. -/
theorem netOnConnect (tls : env.useTls = true) (text : Bytes) (sys : Sys Engine)
    (trusted : env.config.tlsFp = [] ∨ text = env.config.tlsFp → Trusted sys.tls.engine)
    (rests : Rests Clean sys) :
    (relating Holds).Ends (netOnConnect env (some text)) sys fun _ next => Rests Clean next := by
  refine Behaviour.Ends.ite (fun _ => converses.failed _ sys) fun matched => ?_
  have matching : env.config.tlsFp = [] ∨ text = env.config.tlsFp := by
    by_cases none : env.config.tlsFp = []
    · exact .inl none
    · have named := List.length_pos_iff.mpr none
      have same : env.config.tlsFp = text := by simpa [named] using matched
      exact .inr same.symm
  have greeted : (relating fun engine bio log => Holds engine bio log ∧ Trusted engine).Ends (do
        setState .connected
        doLoginCall env) sys fun _ next => Rests Clean next := by
    have welcomed : (relating fun engine bio log => Holds engine bio log ∧ Trusted engine).Change
        sys (sys.withState .connected) := id
    apply Behaviour.Ends.step rfl welcomed
    refine Behaviour.Ends.step rfl
      (converses.login.logged (sys.withState .connected) (.login _) rfl) ?_
    exact converses.login.sendLine tls (fun chunk read => ⟨_, read⟩) _ rests
  exact Ensures.imp greeted
    (fun _ _ ended => ⟨fun holds => (ended.1 ⟨holds, trusted matching⟩).1, ended.2⟩)
    fun _ _ _ => id

theorem finishHandshake (tls : env.useTls = true) (rv : Int) (sys : Sys Engine) :
    (relating Holds).Ends (finishHandshake env rv) sys fun _ next => Rests Clean next := by
  refine (converses.flush sys).bind fun _ next rests => ?_
  refine Behaviour.Ends.ite (fun _ => ?_) fun _ => Behaviour.Ends.pure rests
  have completed : (relating Holds).Change next
      (next.withTls fun tls => { tls with handshakeComplete := true }) := id
  refine Behaviour.Ends.step rfl completed (Behaviour.Ends.get_bind ?_)
  have asked : (relating Holds).Change
      (next.withTls fun tls => { tls with handshakeComplete := true })
      ((next.withTls fun tls => { tls with handshakeComplete := true }).withTls fun tls =>
        { tls with engine := (env.openssl.peerFingerprint tls.engine).2 }) :=
    converses.peerFingerprint
  apply Behaviour.Ends.step rfl asked
  split
  · exact converses.tlsFail _
  · rename_i text shown
    refine converses.netOnConnect tls text _ (converses.trusted _ text shown) fun bio up => ?_
    exact converses.undisturbed _ (rests bio up)

theorem doSslHandshake (tls : env.useTls = true) (sys : Sys Engine) :
    (relating Holds).Ends (doSslHandshake env) sys fun _ next => Rests Clean next := by
  have shaken : (relating Holds).Change sys (sys.withTls fun tls =>
      { tls with engine := (env.openssl.doHandshake tls.engine).2 }) := converses.doHandshake
  apply Behaviour.Ends.get_bind
  apply Behaviour.Ends.step rfl shaken
  refine Behaviour.Ends.ite (fun _ => ?_) fun _ => converses.finishHandshake tls _ _
  exact (converses.tlsFail _).bind fun _ next _ => converses.finishHandshake tls _ next

/-- A consumer call that fails may leave ciphertext behind; the connection is shut down then. -/
theorem finishCtData (rv : Int) (data : Bytes) (sys : Sys Engine) :
    (relating Holds).Ends (finishCtData env rv data) sys
      fun answer next => if answer.1 < 0 then True else Rests Clean next :=
  (converses.flush sys).bind fun _ _ rests => Behaviour.Ends.pure (by simp [rests])

theorem failCtData (data : Bytes) (sys : Sys Engine) :
    (relating Holds).Ends (do
      getTlsError env (doShutdown env)
      return ((-1 : Int), data)) sys
      fun answer next => if answer.1 < 0 then True else Rests Clean next :=
  (converses.getTlsError converses.doShutdown sys).bind fun _ _ _ => Behaviour.Ends.pure trivial

theorem consumeCtData (tls : env.useTls = true) (data : Bytes) (sys : Sys Engine) :
    (relating Holds).Ends (consumeCtData env data) sys
      fun answer next => if answer.1 < 0 then True else Rests Clean next := by
  have stored : (relating Holds).Change sys (sys.withTls fun tls =>
      { tls with engine := (env.openssl.bioWrite tls.engine data).2 }) := converses.bioWrite data
  apply Behaviour.Ends.get_bind
  apply Behaviour.Ends.step rfl stored
  refine Behaviour.Ends.ite (fun _ => converses.failCtData data _) fun _ => ?_
  refine Behaviour.Ends.get_bind (Behaviour.Ends.ite (fun _ => ?_) fun _ => ?_)
  · refine (converses.doSslHandshake tls _).bind fun _ _ rests => ?_
    exact Behaviour.Ends.pure (by simp [rests])
  · have decrypted : ∀ state : Sys Engine, (relating Holds).Change state (state.withTls fun tls =>
        { tls with engine := (env.openssl.read tls.engine (4096 - tls.ptPos)).2.2 }) :=
      fun _ => converses.read _
    apply Behaviour.Ends.get_bind
    apply Behaviour.Ends.step rfl (decrypted _)
    refine Behaviour.Ends.ite (fun _ => Behaviour.Ends.pure trivial) fun _ => ?_
    refine Behaviour.Ends.ite (fun _ => ?_) fun _ => ?_
    · refine Behaviour.Ends.bind (consumeLoop_ends (fun _ _ _ _ => id)
        (fun data state _ => converses.netOnDataRecv data state) _ _ _ trivial) ?_
      rintro ⟨good, ptBuf, ptPos⟩ next _
      have kept : (relating Holds).Change next
          (next.withTls fun tls => { tls with ptBuf := ptBuf, ptPos := ptPos }) := id
      apply Behaviour.Ends.step rfl kept
      exact Behaviour.Ends.ite (fun _ => converses.finishCtData _ _ _)
        fun _ => Behaviour.Ends.pure trivial
    · split
      · exact converses.finishCtData _ _ _
      · exact converses.failCtData data _

/-! ### Callbacks -/

theorem onSocketReadSt (tls : env.useTls = true) (chunk : Bytes) (sys : Sys Engine)
    (rests : Rests Clean sys) :
    (relating Holds).Ends (onSocketReadSt env chunk) sys fun _ next => Rests Clean next := by
  have stored : (relating Holds).Change sys (sys.withReceived
      (sys.net.recvBuf.write sys.net.recvPos chunk) (sys.net.recvPos + chunk.length)) := id
  apply Behaviour.Ends.step rfl stored
  have consumed : ∀ state : Sys Engine, Rests Clean state →
      (relating Holds).Ends (onSocketRead env) state
        fun good next => if good then Rests Clean next else True := by
    intro state rests
    apply Behaviour.Ends.get_bind
    rw [tls]
    apply Behaviour.Ends.bind (consumeLoop_answers (fun _ _ _ _ => id)
      (fun data state _ => converses.consumeCtData tls data state) _ _ state rests)
    rintro ⟨good, recvBuf, recvPos⟩ next kept
    have received : (relating Holds).Change next (next.withReceived recvBuf recvPos) := id
    exact Behaviour.Ends.step rfl received (Behaviour.Ends.pure kept)
  refine Behaviour.Ends.bind (consumed _ rests) fun good next kept => ?_
  refine Behaviour.Ends.ite (fun isGood => Behaviour.Ends.pure ?_) fun _ => ?_
  · simpa [isGood] using kept
  · exact (converses.doShutdown next).mono fun _ _ down => .of_shuttingDown down

theorem onHeartbeat (sys : Sys Engine) (rests : Rests Clean sys) :
    (relating Holds).Ends (onHeartbeat env) sys fun _ next => Rests Clean next := by
  have checked : (relating Holds).Ends (checkCallTimeouts env) sys fun _ next =>
      Rests Clean next :=
    Behaviour.Ends.get_bind (Behaviour.Ends.ite (fun _ => converses.failed _ sys)
      fun _ => Behaviour.Ends.pure rests)
  have dialled : ∀ state, Rests Clean state →
      (relating Holds).Ends dialWhenIdle state fun _ next => Rests Clean next := by
    intro state rests
    apply Behaviour.Ends.get_bind
    refine Behaviour.Ends.ite (fun _ => ?_) fun _ => Behaviour.Ends.pure rests
    exact ensures_poolDoConnect.mpr ⟨fun _ _ => id, fun _ => ⟨converses.effect _ rfl, rests⟩⟩
  refine Behaviour.Ends.get_bind (Behaviour.Ends.ite (fun _ => ?_) fun _ => ?_)
  · refine checked.bind fun _ next rests => ?_
    exact Behaviour.Ends.ite (fun _ => dialled next rests) fun _ => Behaviour.Ends.pure rests
  · exact Behaviour.Ends.ite (fun _ => dialled sys rests) fun _ => Behaviour.Ends.pure rests

theorem onDnsResolvedSt (status : Int) (res : List AddrInfo) (rand : Nat) (sys : Sys Engine)
    (rests : Rests Clean sys) :
    (relating Holds).Ends (onDnsResolvedSt env status res rand) sys
      fun _ next => Rests Clean next := by
  have resolved : (relating Holds).Change sys { sys with uv := { sys.uv with dns := false } } := id
  have freed : ∀ state : Sys Engine, Rests Clean state →
      (relating Holds).Ends (setNet fun net => { net with rResolv := false }) state
        fun _ next => Rests Clean next := fun _ rests => ⟨id, rests⟩
  have connected : ∀ state, Rests Clean state →
      (relating Holds).Ends (onDnsResolved env res rand) state fun _ next => Rests Clean next := by
    intro state rests
    unfold onDnsResolved
    split
    · exact converses.failed _ state
    · exact ensures_openSocket.mpr
        ⟨fun _ _ => id, fun _ _ _ => id, fun _ _ => ⟨id, rests⟩⟩
  have still : Rests Clean { sys with uv := { sys.uv with dns := false } } := rests
  apply Behaviour.Ends.step rfl resolved
  refine Behaviour.Ends.ite (fun _ => ?_) fun _ => ?_
  · exact (connected _ still).bind fun _ next rests => freed next rests
  · exact (converses.failed _ _).bind fun _ next rests => freed next rests

theorem onConnect (tls : env.useTls = true) (sys : Sys Engine) :
    (relating Holds).Ends (onConnect env) sys fun _ next => Rests Clean next := by
  refine Behaviour.Ends.ite (fun _ => ?_) fun plain => absurd tls plain
  have begun : (relating Holds).Change sys
      (sys.withTls fun tls => { tls with handshakeComplete := false }) := id
  refine Behaviour.Ends.step rfl begun (Behaviour.Ends.get_bind ?_)
  refine Behaviour.Ends.ite (fun _ => (ensures_throw ..).mpr fun _ => id) fun idle => ?_
  have bio : sys.tls.bio = false := by
    have none : ¬(sys.tls.ssl || sys.tls.bio) = true := idle
    by_contra pair
    exact none (Bool.or_eq_true_iff.mpr (.inr (by simpa using pair)))
  have opened : (relating Holds).Change
      (sys.withTls fun tls => { tls with handshakeComplete := false })
      ((sys.withTls fun tls => { tls with handshakeComplete := false }).withTls fun tls =>
        { tls with
          engine := (env.openssl.newSession tls.engine).2
          ssl := (env.openssl.newSession tls.engine).1 }) :=
    converses.newSession bio
  apply Behaviour.Ends.step rfl opened
  refine Behaviour.Ends.ite (fun _ => converses.tlsFail _) fun _ => ?_
  have paired : ∀ state : Sys Engine, state.tls.bio = false → (relating Holds).Change state
      (state.withTls fun tls =>
        { tls with
          engine := (env.openssl.newBioPair tls.engine).2
          bio := (env.openssl.newBioPair tls.engine).1 }) :=
    fun _ bio => converses.newBioPair bio
  refine Behaviour.Ends.get_bind (Behaviour.Ends.step rfl (paired _ bio) ?_)
  refine Behaviour.Ends.ite (fun _ => converses.tlsFail _) fun _ => ?_
  have reads : ∀ state : Sys Engine, (relating Holds).Change state
      { state with uv := { state.uv with reading := true } } := fun _ => id
  exact Behaviour.Ends.step rfl (reads _) (converses.doSslHandshake tls _)

theorem onConnnectSt (tls : env.useTls = true) (status : Int) (sys : Sys Engine) :
    (relating Holds).Ends (onConnnectSt env status) sys fun _ next => Rests Clean next := by
  have answered : (relating Holds).Change sys
      { sys with uv := { sys.uv with conn := false, connected := decide (status = 0) } } := id
  have freed : ∀ state : Sys Engine, Rests Clean state →
      (relating Holds).Ends (setNet fun net => { net with rConn := false }) state
        fun _ next => Rests Clean next := fun _ rests => ⟨id, rests⟩
  apply Behaviour.Ends.step rfl answered
  refine Behaviour.Ends.ite (fun _ => ?_) fun _ => ?_
  · exact (converses.onConnect tls _).bind fun _ next rests => freed next rests
  · exact (converses.failed _ _).bind fun _ next rests => freed next rests

theorem onSocketError (error : Int) (sys : Sys Engine) :
    (relating Holds).Ends (onSocketError env error) sys fun _ next => Rests Clean next := by
  have down : ∀ state, (relating Holds).Ends (doShutdown env) state fun _ next =>
      Rests Clean next := fun state =>
    (converses.doShutdown state).mono fun _ _ down => .of_shuttingDown down
  apply Behaviour.Ends.get_bind
  refine Behaviour.Ends.ite (fun _ => down sys) fun _ => ?_
  exact (converses.failed _ sys).bind fun _ next _ => down next

theorem onSocketWriteSt (idx : Fin 4) (status : Int) (sys : Sys Engine)
    (rests : Rests Clean sys) :
    (relating Holds).Ends (onSocketWriteSt env idx status) sys fun _ next => Rests Clean next := by
  have ended : (relating Holds).Change sys (sys.writeEnded idx) := id
  apply Behaviour.Ends.step rfl ended
  refine Behaviour.Ends.ite (fun _ => Behaviour.Ends.get_bind ?_)
    fun _ => converses.onSocketError status _
  exact Behaviour.Ends.ite (fun _ => (ensures_throw ..).mpr fun _ => id) fun _ => ⟨id, rests⟩

/-- Every callback but that of a found share, which writes a line of its own. -/
theorem callback (tls : env.useTls = true) (event : Event) (sys : Sys Engine)
    (rests : Rests Clean sys)
    (found : ∀ res, event = .foundResult res →
      (relating Holds).Ends (EventLoop.doSendResult env res) sys fun _ next => Rests Clean next) :
    (relating Holds).Ends (callback env event) sys fun _ next => Rests Clean next := by
  cases event with
  | heartbeat => exact converses.onHeartbeat sys rests
  | dnsResolved status res rand => exact converses.onDnsResolvedSt status res rand sys rests
  | connected status => exact converses.onConnnectSt tls status sys
  | read chunk => exact converses.onSocketReadSt tls chunk sys rests
  | readError error => exact converses.onSocketError error sys
  | written idx status => exact converses.onSocketWriteSt idx status sys rests
  | shutDown => exact ensures_onShutdownSt.mpr ⟨id, rests⟩
  | closed =>
      have freed : (sys.socketClosed env).tls.bio = false := by simp [Sys.socketClosed, tls]
      have kept : (sys.socketClosed env).tls.engine = sys.tls.engine := by
        simp [Sys.socketClosed, tls]
      refine (ensures_onSocketClosed env).mpr ⟨fun holds => ?_, fun bio => ?_⟩
      · change Holds (sys.socketClosed env).tls.engine (sys.socketClosed env).tls.bio _
        rw [freed, kept]
        exact converses.closed (converses.effect (.shared .publishIdle) rfl
          (converses.effect (.shared .storeNonce) rfl holds))
      · rw [freed] at bio
        cases bio
  | foundResult res => exact found res rfl

end Converses

/-! ## The wire -/

def Effect.isClosed : Effect → Bool
  | .closed => true
  | _ => false

/-- The entries since the last connection was closed. -/
def sinceClosed (log : List Effect) : List Effect :=
  log.takeWhile fun effect => !effect.isClosed

/-- The bytes of the writes that libuv accepted, oldest first. -/
def wire : List Effect → Bytes
  | [] => []
  | .uvWrite _ data _ accepted :: earlier =>
      if accepted then wire earlier ++ data else wire earlier
  | _ :: earlier => wire earlier

def Effect.isRefused : Effect → Bool
  | .uvWrite _ _ _ accepted => !accepted
  | _ => false

def AllAccepted (log : List Effect) : Prop :=
  ∀ effect ∈ log, effect.isRefused = false

instance (log : List Effect) : Decidable (AllAccepted log) :=
  inferInstanceAs (Decidable (∀ effect ∈ log, effect.isRefused = false))

section Queues

variable (produced waiting : Engine → Bytes)

/-- A call of OpenSSL puts ciphertext behind what it has produced already, or none. -/
def Produces (engine next : Engine) : Prop :=
  ∃ more, produced next = produced engine ++ more ∧ waiting next = waiting engine ++ more

/-- What OpenSSL is relied on for: its BIO pair is a queue. `produced` is the ciphertext that was
put into the present pair, `waiting` what was not yet read from it. -/
structure OpenSsl.Queues (openssl : OpenSsl Engine) : Prop where
  pending : ∀ engine, openssl.bioPending engine = (waiting engine).length
  bioRead : ∀ engine, waiting engine ≠ [] →
    (openssl.bioRead engine (waiting engine).length).1 = (waiting engine).length ∧
      (openssl.bioRead engine (waiting engine).length).2.1 = waiting engine ∧
      produced (openssl.bioRead engine (waiting engine).length).2.2 = produced engine ∧
      waiting (openssl.bioRead engine (waiting engine).length).2.2 = []
  newBioPair : ∀ engine, (openssl.newBioPair engine).1 = true →
    produced (openssl.newBioPair engine).2 = [] ∧ waiting (openssl.newBioPair engine).2 = []
  doHandshake : ∀ engine, Produces produced waiting engine (openssl.doHandshake engine).2
  peerFingerprint : ∀ engine,
    produced (openssl.peerFingerprint engine).2 = produced engine ∧
      waiting (openssl.peerFingerprint engine).2 = waiting engine
  write : ∀ engine chunk, Produces produced waiting engine (openssl.write engine chunk).2
  read : ∀ engine room, Produces produced waiting engine (openssl.read engine room).2.2
  bioWrite : ∀ engine data, Produces produced waiting engine (openssl.bioWrite engine data).2
  shutdown : ∀ engine, Produces produced waiting engine (openssl.shutdown engine)
  errorText : ∀ engine, Produces produced waiting engine (openssl.errorText engine).2

/-- The wire has what was produced, but for what still waits in the pair. Without a pair nothing
is written. -/
def Conveys (engine : Engine) (bio : Bool) (log : List Effect) : Prop :=
  if bio then
    AllAccepted (sinceClosed log) →
      wire (sinceClosed log) ++ waiting engine = produced engine
  else wire (sinceClosed log) = []

variable {produced waiting}

theorem sinceClosed_cons {effect : Effect} (still : effect.isClosed = false) (log : List Effect) :
    sinceClosed (effect :: log) = effect :: sinceClosed log := by
  simp [sinceClosed, still]

theorem wire_cons {effect : Effect} (other : effect.isWiring = false) (log : List Effect) :
    wire (effect :: log) = wire log := by
  cases effect <;> first | rfl | cases other

theorem AllAccepted.tail {effect : Effect} {log : List Effect}
    (accepted : AllAccepted (effect :: log)) : AllAccepted log :=
  fun other member => accepted other (.tail _ member)

theorem Conveys.effect {engine : Engine} {bio : Bool} {log : List Effect} (effect : Effect)
    (other : effect.isWiring = false) (conveys : Conveys produced waiting engine bio log) :
    Conveys produced waiting engine bio (effect :: log) := by
  have still : effect.isClosed = false := by
    cases effect <;> first | rfl | cases other
  unfold Conveys at conveys ⊢
  rw [sinceClosed_cons still, wire_cons other]
  cases bio with
  | false => exact conveys
  | true => exact fun accepted => conveys accepted.tail

theorem Conveys.produces {engine next : Engine} {bio : Bool} {log : List Effect}
    (produces : Produces produced waiting engine next)
    (conveys : Conveys produced waiting engine bio log) :
    Conveys produced waiting next bio log := by
  obtain ⟨more, made, behind⟩ := produces
  unfold Conveys at conveys ⊢
  cases bio with
  | false => exact conveys
  | true =>
      intro accepted
      have before := conveys accepted
      rw [made, behind, ← List.append_assoc, before]

theorem conveys_sends {env : Env Engine} (queues : env.openssl.Queues produced waiting)
    (Piece : Bytes → Prop) :
    Sends env (fun engine => waiting engine = []) Piece (Conveys produced waiting) where
  effect := Conveys.effect
  write := fun chunk _ conveys => conveys.produces (queues.write _ chunk)
  errorText := fun conveys => conveys.produces (queues.errorText _)
  shutdown := fun conveys => conveys.produces (queues.shutdown _)
  empty := by
    intro engine none
    rw [queues.pending] at none
    exact List.length_eq_zero_iff.mp none
  short := by
    intro engine bio log _ filled refused
    rw [queues.pending] at filled refused
    exact absurd (queues.bioRead engine (mt List.length_eq_zero_iff.mpr filled)).1 refused
  flushed := by
    intro engine bio log slot sent accepted pair filled full whole conveys
    rw [queues.pending] at filled whole ⊢
    obtain ⟨-, data, made, emptied⟩ :=
      queues.bioRead engine (mt List.length_eq_zero_iff.mpr filled)
    rw [data] at whole
    subst pair
    intro all
    have earlier := conveys all.tail
    have taken : accepted = true := by simpa [Effect.isRefused] using all _ (.head _)
    change (if accepted then wire (sinceClosed log) ++ sent else _) ++ _ = _
    rw [taken, if_pos rfl, whole rfl, emptied, List.append_nil, made, earlier]
  drained := by
    intro engine filled _
    rw [queues.pending] at filled ⊢
    exact (queues.bioRead engine (mt List.length_eq_zero_iff.mpr filled)).2.2.2

theorem conveys_converses {env : Env Engine} (queues : env.openssl.Queues produced waiting) :
    Converses env (fun engine => waiting engine = []) (fun _ => True)
      (Conveys produced waiting) where
  toSends := conveys_sends queues _
  login := by simpa only [and_true] using conveys_sends queues _
  trusted := fun _ _ _ _ => trivial
  newSession := by
    rintro engine bio log rfl conveys
    exact conveys
  newBioPair := by
    rintro engine bio log rfl nothing
    unfold Conveys
    split
    · rename_i pair
      intro _
      obtain ⟨made, behind⟩ := queues.newBioPair engine pair
      rw [made, behind, List.append_nil]
      exact nothing
    · exact nothing
  doHandshake := fun conveys => conveys.produces (queues.doHandshake _)
  peerFingerprint := by
    intro engine bio log conveys
    obtain ⟨made, behind⟩ := queues.peerFingerprint engine
    exact conveys.produces ⟨[], by rw [made, List.append_nil], by rw [behind, List.append_nil]⟩
  undisturbed := fun engine nothing => (queues.peerFingerprint engine).2.trans nothing
  bioWrite := fun data conveys => conveys.produces (queues.bioWrite _ data)
  read := fun room conveys => conveys.produces (queues.read _ room)
  closed := fun _ => rfl

/-- Whatever happens on the connection, as long as libuv accepts the writes: the wire carries the
ciphertext, every byte of it once, in order, and nothing else, but for what waits in the pair;
and nothing waits there between two callbacks until the connection is being shut down. -/
theorem wire_ciphertext (env : Env Engine) (tls : env.useTls = true)
    (queues : env.openssl.Queues produced waiting) {sys : Sys Engine}
    (reachable : (machine env).Reachable sys) (bio : sys.tls.bio = true)
    (accepted : AllAccepted (sinceClosed sys.app.log)) :
    wire (sinceClosed sys.app.log) ++ waiting sys.tls.engine = produced sys.tls.engine ∧
      (sys.net.shuttingDown = false → waiting sys.tls.engine = []) := by
  have initially : ∀ start, (machine env).Initial start →
      Conveys produced waiting start.tls.engine start.tls.bio start.app.log ∧
        Rests (fun engine => waiting engine = []) start := by
    intro start initial
    have none : start.tls.bio = false := (Initial.noSession initial).2.1
    rw [Initial.logEmpty initial, none]
    refine ⟨rfl, fun pair => ?_⟩
    rw [none] at pair
    cases pair
  have always : Conveys produced waiting sys.tls.engine sys.tls.bio sys.app.log ∧
      Rests (fun engine => waiting engine = []) sys := by
    apply reachable.invariant initially
    rintro before input after - ⟨conveys, rests⟩ stepped -
    obtain ⟨-, handled⟩ := step_enabled stepped
    have still : Rests (fun engine => waiting engine = []) (before.answering input) := rests
    have ends := (conveys_converses queues).callback tls input.event _ still fun res _ =>
      (conveys_sends queues fun _ => True).doSendResult tls res _ (fun _ _ _ => trivial) still
    obtain ⟨change, rested⟩ := ends.of_run (run_of_handle handled)
    exact ⟨change conveys, rested⟩
  obtain ⟨conveys, rests⟩ := always
  rw [bio] at conveys
  exact ⟨conveys accepted, rests bio⟩

end Queues

/-- An OpenSSL that encrypts nothing. The engine is all that was put into the pair, and what
waits there. -/
def OpenSsl.ledger : OpenSsl (Bytes × Bytes) where
  newSession := fun engine => (true, engine)
  newBioPair := fun _ => (true, [], [])
  doHandshake := fun engine => (1, engine)
  getError := fun _ _ => .other
  peerFingerprint := fun engine => (some (ascii "SHA256:00"), engine)
  write := fun engine data => (data.length, engine.1 ++ data, engine.2 ++ data)
  read := fun engine _ => (-1, [], engine)
  shutdown := id
  bioPending := fun engine => engine.2.length
  bioWrite := fun engine data => (data.length, engine)
  bioRead := fun engine len =>
    ((engine.2.take len).length, engine.2.take len, engine.1, engine.2.drop len)
  errorText := fun engine => ([], engine)

theorem OpenSsl.ledger_queues : OpenSsl.ledger.Queues Prod.fst Prod.snd where
  pending := fun _ => rfl
  bioRead := by
    intro engine _
    simp [ledger]
  newBioPair := fun _ _ => ⟨rfl, rfl⟩
  doHandshake := fun _ => ⟨[], by simp [ledger]⟩
  peerFingerprint := fun _ => ⟨rfl, rfl⟩
  write := fun _ chunk => ⟨chunk, rfl, rfl⟩
  read := fun _ _ => ⟨[], by simp [ledger]⟩
  bioWrite := fun _ _ => ⟨[], by simp [ledger]⟩
  shutdown := fun _ => ⟨[], by simp [ledger]⟩
  errorText := fun _ => ⟨[], by simp [ledger]⟩

def Env.ledger : Env (Bytes × Bytes) :=
  { Env.sample with
    config := { Env.sample.config with tlsFp := ascii "SHA256:00" }
    useTls := true
    openssl := .ledger
    memory := fun _ _ => 0
    patience := 2 }

def Sys.ledger : Sys (Bytes × Bytes) :=
  { Sys.start with
    tls :=
      { ssl := false
        bio := false
        handshakeComplete := false
        ptBuf := default
        ptPos := 0
        engine := ([], []) } }

theorem Sys.ledger_initial : Initial Sys.ledger :=
  { Sys.start_initial with noSession := ⟨rfl, rfl, rfl⟩ }

theorem wire_ciphertext_session :
    ∃ sys : Sys (Bytes × Bytes), (machine .ledger).Reachable sys ∧ sys.tls.engine.1 ≠ [] ∧
      wire (sinceClosed sys.app.log) ++ sys.tls.engine.2 = sys.tls.engine.1 ∧
        (sys.net.shuttingDown = false → sys.tls.engine.2 = []) := by
  have executed := Machine.execute_reachable Sys.ledger_initial (step Env.ledger) loginSession
    (fun sys => sys.tls.engine.1 ≠ [] ∧ sys.tls.bio = true ∧ AllAccepted (sinceClosed sys.app.log))
    (by decide +kernel)
  obtain ⟨reachable, produced, bio, accepted⟩ := executed
  exact ⟨_, reachable, produced,
    wire_ciphertext .ledger rfl OpenSsl.ledger_queues reachable bio accepted⟩

end EpicMiner.EventLoop
