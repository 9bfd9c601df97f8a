import EpicMiner.EventLoop.Closure
import EpicMiner.EventLoop.Outcomes

/-!
Owns the behaviour of the receiving half and of the lines the pool sends. What
a document does may depend on the connection being ready for documents, and
what a greeting does on the pool having no job; both are carried along the code
here, so that a behaviour only says what it makes of them.
-/

namespace EpicMiner.EventLoop

open EpicMiner.Library
open EpicMiner.Library.Program
open EpicMiner.Data

variable {Engine : Type}

/-! ## What the code inside the callbacks leaves alone -/

/-- The shutdown of a connection stays where it is, or is started. -/
def ShutdownProgress (sys next : Sys Engine) : Prop :=
  (next.net.shuttingDown = sys.net.shuttingDown ∧ next.net.rShutdown = sys.net.rShutdown ∧
      next.uv.shutdown = sys.uv.shutdown) ∨
    (sys.net.shuttingDown = false ∧ sys.net.rShutdown = false ∧
      next.net.shuttingDown = true ∧ next.net.rShutdown = true ∧
      (next.uv.shutdown = true → sys.uv.shutdown = true ∨ sys.uv.connected = true))

/-- The requests, the stream and the session are left alone, up to the progress
of the shutdown. -/
structure Steady (sys next : Sys Engine) : Prop where
  dns : next.uv.dns = sys.uv.dns
  conn : next.uv.conn = sys.uv.conn
  connected : next.uv.connected = sys.uv.connected
  reading : next.uv.reading = sys.uv.reading
  closing : next.uv.closing = sys.uv.closing
  hSock : next.net.hSock = sys.net.hSock
  rConn : next.net.rConn = sys.net.rConn
  rResolv : next.net.rResolv = sys.net.rResolv
  ssl : next.tls.ssl = sys.tls.ssl
  bio : next.tls.bio = sys.tls.bio
  handshake : sys.tls.handshakeComplete = true → next.tls.handshakeComplete = true
  shutdown : ShutdownProgress sys next

namespace Steady

theorem refl (sys : Sys Engine) : Steady sys sys := by
  constructor <;> first | rfl | exact id | exact .inl ⟨rfl, rfl, rfl⟩

theorem trans {first second third : Sys Engine} (before : Steady first second)
    (after : Steady second third) : Steady first third where
  dns := after.dns.trans before.dns
  conn := after.conn.trans before.conn
  connected := after.connected.trans before.connected
  reading := after.reading.trans before.reading
  closing := after.closing.trans before.closing
  hSock := after.hSock.trans before.hSock
  rConn := after.rConn.trans before.rConn
  rResolv := after.rResolv.trans before.rResolv
  ssl := after.ssl.trans before.ssl
  bio := after.bio.trans before.bio
  handshake := fun complete => after.handshake (before.handshake complete)
  shutdown := by
    have connected := before.connected
    rcases before.shutdown with ⟨down, request, pending⟩ | ⟨down, request, down', request', pending⟩ <;>
      rcases after.shutdown with ⟨down₂, request₂, pending₂⟩ | ⟨down₂, request₂, rest⟩
    · exact .inl ⟨down₂.trans down, request₂.trans request, pending₂.trans pending⟩
    · rw [pending, connected] at rest
      exact .inr ⟨down.symm.trans down₂, request.symm.trans request₂, rest⟩
    · refine .inr ⟨down, request, down₂.trans down', request₂.trans request', ?_⟩
      rw [pending₂]
      exact pending
    · rw [down'] at down₂
      cases down₂

theorem of_frame {sys next : Sys Engine}
    (uv : next.uv = { sys.uv with writes := next.uv.writes })
    (net : next.net =
      { sys.net with
        sendBufs := next.net.sendBufs
        recvBuf := next.net.recvBuf
        recvPos := next.net.recvPos })
    (tls : next.tls =
      { sys.tls with
        ptBuf := next.tls.ptBuf
        ptPos := next.tls.ptPos
        engine := next.tls.engine }) : Steady sys next := by
  constructor
  case handshake =>
    intro complete
    rw [tls]
    exact complete
  case shutdown => exact .inl ⟨by rw [net], by rw [net], by rw [uv]⟩
  case ssl | bio => rw [tls]
  case hSock | rConn | rResolv => rw [net]
  all_goals rw [uv]

end Steady

/-- The behaviour that leaves requests, stream and session alone. No assert of
the life cycle fails under it, unless a shutdown request is in use although no
shutdown is under way. -/
def steady : Behaviour Fault (Sys Engine) where
  Change := Steady
  Fault := fun sys failure => Lifecycle failure →
    sys.net.shuttingDown = false ∧ sys.net.rShutdown = true
  refl := Steady.refl
  trans := Steady.trans
  fault_trans := by
    intro sys next failure change fault lifecycle
    obtain ⟨down, request⟩ := fault lifecycle
    rcases change.shutdown with ⟨same, sameRequest, -⟩ | ⟨-, -, started, -⟩
    · exact ⟨same.symm.trans down, sameRequest.symm.trans request⟩
    · rw [started] at down
      cases down

theorem steady_core : Core (steady : Behaviour Fault (Sys Engine)) where
  fault := fun _ _ harmless lifecycle => absurd lifecycle harmless.1
  sendIdle := fun _ _ _ _ lifecycle => absurd lifecycle (by decide)
  shutdownIdle := fun _ down request _ => ⟨down, request⟩
  logError := fun _ _ => .of_frame rfl rfl rfl
  shutdownCalled := fun _ => .of_frame rfl rfl rfl
  shutdownStarted := by
    intro sys down request
    constructor <;> first | rfl | exact id | skip
    refine .inr ⟨down, request, rfl, rfl, ?_⟩
    intro pending
    have either : sys.uv.shutdown = true ∨
        sys.uv.acceptsShutdown = true ∧ sys.uv.connected = true := by
      simpa [Sys.shutdownStarted, Sys.shutdownAccepted] using pending
    exact either.imp id And.right
  jobDropped := fun _ _ => .of_frame rfl rfl rfl
  acquire := fun _ _ _ => .of_frame rfl rfl rfl
  fill := fun _ _ _ _ => .of_frame rfl rfl rfl
  handOver := fun _ _ _ _ _ => .of_frame rfl rfl rfl
  engine := fun _ _ => .of_frame rfl rfl rfl

/-- The behaviour that never enters `has_job`. -/
def jobless : Behaviour Fault (Sys Engine) where
  Change := fun sys next => next.app.pool.state = .hasJob → sys.app.pool.state = .hasJob
  Fault := fun _ _ => True
  refl := fun _ => id
  trans := fun before after last => before (after last)
  fault_trans := fun _ _ => trivial

theorem jobless_core : Core (jobless : Behaviour Fault (Sys Engine)) where
  fault := fun _ _ _ => trivial
  sendIdle := fun _ _ _ _ => trivial
  shutdownIdle := fun _ _ _ => trivial
  logError := fun _ _ => id
  shutdownCalled := fun _ => id
  shutdownStarted := fun _ _ _ => id
  jobDropped := fun _ _ entered => by cases entered
  acquire := fun _ _ _ => id
  fill := fun _ _ _ _ => id
  handOver := fun _ _ _ _ _ => id
  engine := fun _ _ => id

/-! ## Readiness -/

variable (env : Env Engine)

/-- Documents may arrive: the stream is connected and, under TLS, the handshake
is complete. -/
def Ready (sys : Sys Engine) : Prop :=
  sys.uv.connected = true ∧ (env.useTls = true → sys.tls.handshakeComplete = true)

/-- A pool has a job only while documents may arrive. -/
def Coherent (sys : Sys Engine) : Prop :=
  sys.app.pool.state = .hasJob → Ready env sys

variable {env}

theorem Ready.coherent {sys : Sys Engine} (ready : Ready env sys) : Coherent env sys :=
  fun _ => ready

theorem Ready.steady {sys next : Sys Engine} (ready : Ready env sys) (change : Steady sys next) :
    Ready env next :=
  ⟨change.connected.trans ready.1, fun tls => change.handshake (ready.2 tls)⟩

theorem Coherent.of_jobless {sys : Sys Engine} (none : sys.app.pool.state ≠ .hasJob) :
    Coherent env sys :=
  fun has => absurd has none

/-- What is known after a program of the sending half. -/
structure Along (sys next : Sys Engine) : Prop where
  steady : Steady sys next
  jobless : next.app.pool.state = .hasJob → sys.app.pool.state = .hasJob

theorem Along.coherent {sys next : Sys Engine} (along : Along sys next)
    (coherent : Coherent env sys) : Coherent env next :=
  fun has => (coherent (along.jobless has)).steady along.steady

theorem Core.along {α : Type} {behaviour : Behaviour Fault (Sys Engine)} (core : Core behaviour)
    {program : Loop Engine α}
    (within : ∀ {behaviour : Behaviour Fault (Sys Engine)}, Core behaviour →
      behaviour.Within program)
    (sys : Sys Engine) : behaviour.Ends program sys fun _ next => Along sys next := by
  have behaves := within core sys
  have leaves := within steady_core sys
  have enters := within jobless_core sys
  unfold Behaviour.Ends Ensures at *
  cases outcome : program.run sys with
  | error failure => simpa only [outcome] using behaves
  | ok ended =>
      simp only [outcome] at behaves leaves enters
      exact ⟨behaves.1, ⟨leaves.1, enters.1⟩⟩

/-- The pool has no job on a connected stream. -/
def Fresh (sys : Sys Engine) : Prop :=
  sys.app.pool.state ≠ .hasJob ∧ sys.uv.connected = true

theorem Fresh.along {sys next : Sys Engine} (fresh : Fresh sys) (along : Along sys next) :
    Fresh next :=
  ⟨fun has => fresh.1 (along.jobless has), along.steady.connected.trans fresh.2⟩

/-- Whatever the socket delivers, the pool has a job only while documents may
arrive. -/
def Receiving (env : Env Engine) (sys : Sys Engine) : Prop :=
  Coherent env sys ∧ sys.uv.connected = true

theorem Receiving.ready {sys : Sys Engine} (receiving : Receiving env sys)
    (complete : env.useTls = true → sys.tls.handshakeComplete = true) : Ready env sys :=
  ⟨receiving.2, complete⟩

theorem Ready.receiving {sys : Sys Engine} (ready : Ready env sys) : Receiving env sys :=
  ⟨ready.coherent, ready.1⟩

theorem Fresh.receiving {sys : Sys Engine} (fresh : Fresh sys) : Receiving env sys :=
  ⟨.of_jobless fresh.1, fresh.2⟩

/-! ## Closed behaviours -/

/-- Behaviours closed under the updates of the receiving half, too. -/
structure Closed (env : Env Engine) (behaviour : Behaviour Fault (Sys Engine)) : Prop
    extends Core behaviour where
  received : ∀ sys recvBuf recvPos, behaviour.Change sys (sys.withReceived recvBuf recvPos)
  plaintext : ∀ sys ptBuf ptPos,
    behaviour.Change sys (sys.withTls fun tls => { tls with ptBuf := ptBuf, ptPos := ptPos })
  document : ∀ sys members, Ready env sys →
    behaviour.Ends (liftApp (processJsonDoc env.config (.object members))) sys fun _ _ => True
  handshaken : ∀ sys, sys.app.pool.state ≠ .hasJob →
    behaviour.Change sys (sys.withTls fun tls => { tls with handshakeComplete := true })
  welcomed : ∀ sys, sys.app.pool.state ≠ .hasJob → sys.uv.connected = true →
    behaviour.Change sys (sys.withState .connected)
  loginMade : ∀ sys, sys.app.pool.state = .connected → behaviour.Change sys sys.loginMade

theorem Ends.liftApp {α : Type} {behaviour : Behaviour Fault (Sys Engine)}
    {program : AppProgram α} {sys : Sys Engine}
    (ends : behaviour.Ends (liftApp program) sys fun _ _ => True) :
    behaviour.Ends (liftApp program) sys fun _ next =>
      next.net = sys.net ∧ next.tls = sys.tls ∧ next.uv = sys.uv := by
  unfold Behaviour.Ends EventLoop.liftApp at *
  rw [ensures_zoom] at *
  exact ends.mono fun _ _ ended => ⟨ended.1, rfl, rfl, rfl⟩

theorem Ends.document {behaviour : Behaviour Fault (Sys Engine)} {config : Config}
    {doc : Value} {sys : Sys Engine}
    (fault : ∀ failure, DocumentFault failure → behaviour.Fault sys failure)
    (change : ∀ app, Handled config (sys.app.record (.document doc)) app →
      behaviour.Change sys { sys with app := app }) :
    behaviour.Ends (EventLoop.liftApp (processJsonDoc config doc)) sys fun _ _ => True := by
  have handles := processJsonDoc_handles config doc sys.app
  unfold Behaviour.Ends EventLoop.liftApp
  rw [ensures_zoom]
  unfold Ensures at *
  split at handles
  · exact ⟨change _ handles, trivial⟩
  · exact fault _ handles

theorem DocumentFault.harmless {failure : Fault} (fault : DocumentFault failure) :
    Harmless failure := by
  rcases fault with rfl | rfl | rfl <;> decide

theorem steady_closed : Closed env steady where
  toCore := steady_core
  received := fun _ _ _ => .of_frame rfl rfl rfl
  plaintext := fun _ _ _ => .of_frame rfl rfl rfl
  document := fun _ _ _ => Ends.document
    (fun _ fault lifecycle => absurd lifecycle fault.harmless.1)
    fun _ _ => .of_frame rfl rfl rfl
  handshaken := by
    intro sys _
    constructor <;> first | rfl | exact fun _ => rfl | exact .inl ⟨rfl, rfl, rfl⟩
  welcomed := fun _ _ _ => .of_frame rfl rfl rfl
  loginMade := fun _ _ => .of_frame rfl rfl rfl

/-- A program that behaves whatever the closed behaviour leaves requests, stream
and session alone. -/
theorem Closed.along {α : Type} {behaviour : Behaviour Fault (Sys Engine)}
    (closed : Closed env behaviour) {program : Loop Engine α} {sys : Sys Engine}
    {post : α → Sys Engine → Prop}
    (ends : ∀ {behaviour : Behaviour Fault (Sys Engine)}, Closed env behaviour →
      behaviour.Ends program sys post) :
    behaviour.Ends program sys fun value next => post value next ∧ Steady sys next := by
  have behaves := ends closed
  have leaves := ends steady_closed
  unfold Behaviour.Ends Ensures at *
  cases outcome : program.run sys with
  | error failure => simpa only [outcome] using behaves
  | ok ended =>
      simp only [outcome] at behaves leaves
      exact ⟨behaves.1, behaves.2, leaves.1⟩

section ConsumeLoop

variable {σ : Type} {size : Nat} {behaviour : Behaviour Fault σ} {Holds Failed : σ → Prop}
  {consume : Bytes → Program Fault σ (Int × Bytes)}

/-- What each consumer call keeps as long as none fails, the rounds of `consume_loop` keep. The
induction is on the rounds left. -/
theorem consumeFrom_ends (recvPos : Nat)
    (fault : ∀ state failure, Harmless failure → behaviour.Fault state failure)
    (call : ∀ data state, Holds state →
      behaviour.Ends (consume data) state fun answer next =>
        if answer.1 < 0 then Failed next else Holds next)
    (fuel : Nat) (buffer : Buffer size) (consumed : Nat) (state : σ) (holds : Holds state) :
    behaviour.Ends (consumeFrom consume recvPos fuel buffer consumed) state
      fun answer next => if answer.1 then Holds next else Failed next := by
  induction fuel generalizing buffer consumed state with
  | zero => exact fault state _ (by decide)
  | succ fuel inductionHypothesis =>
      apply (call _ state holds).bind
      rintro ⟨cd, left⟩ next kept
      refine Behaviour.Ends.ite (fun failed => ?_) fun good => ?_
      · exact Behaviour.Ends.pure (by simpa [failed] using kept)
      have still : Holds next := by simpa [good] using kept
      refine Behaviour.Ends.ite (fun _ => fault next _ (by decide)) fun _ => ?_
      refine Behaviour.Ends.ite (fun _ => Behaviour.Ends.pure still) fun _ => ?_
      exact inductionHypothesis _ _ next still

theorem consumeLoop_answers
    (fault : ∀ state failure, Harmless failure → behaviour.Fault state failure)
    (call : ∀ data state, Holds state →
      behaviour.Ends (consume data) state fun answer next =>
        if answer.1 < 0 then Failed next else Holds next)
    (buffer : Buffer size) (recvPos : Nat) (state : σ) (holds : Holds state) :
    behaviour.Ends (consumeLoop consume buffer recvPos) state
      fun answer next => if answer.1 then Holds next else Failed next := by
  apply (consumeFrom_ends recvPos fault call _ buffer 0 state holds).bind
  rintro ⟨good, buffer, consumed⟩ next kept
  refine Behaviour.Ends.ite (fun isGood => ?_) fun failed => ?_
  · have still : Holds next := by simpa [isGood] using kept
    exact Behaviour.Ends.ite (fun _ => Behaviour.Ends.pure still)
      fun _ => Behaviour.Ends.pure still
  · exact Behaviour.Ends.pure (by simpa [failed] using kept)

theorem consumeLoop_ends
    (fault : ∀ state failure, Harmless failure → behaviour.Fault state failure)
    (call : ∀ data state, Holds state →
      behaviour.Ends (consume data) state fun _ next => Holds next)
    (buffer : Buffer size) (recvPos : Nat) (state : σ) (holds : Holds state) :
    behaviour.Ends (consumeLoop consume buffer recvPos) state fun _ next => Holds next := by
  have answers : ∀ data state, Holds state → behaviour.Ends (consume data) state
      fun answer next => if answer.1 < 0 then Holds next else Holds next := by
    simpa only [ite_self] using call
  simpa only [ite_self] using consumeLoop_answers fault answers buffer recvPos state holds

end ConsumeLoop

namespace Closed

variable {behaviour : Behaviour Fault (Sys Engine)} (closed : Closed env behaviour)

include closed

/-! ## Pool -/

theorem netOnDataRecv (data : Bytes) (sys : Sys Engine) (ready : Ready env sys) :
    behaviour.Ends (netOnDataRecv env data) sys fun _ next => Ready env next := by
  unfold EventLoop.netOnDataRecv
  have rejected : ∀ left : Bytes, behaviour.Ends (do
      netOnError env (doShutdown env) (ascii "JSON parse error")
      return ((-1 : Int), left)) sys fun _ next => Ready env next := by
    intro left
    refine (closed.toCore.along (fun core => (core.netOnError core.doShutdown _).within) sys).bind ?_
    intro _ next along
    exact Behaviour.Ends.pure (ready.steady along.steady)
  split
  · exact Behaviour.Ends.pure ready
  · dsimp only
    split
    · apply (Ends.liftApp (closed.document sys _ ready)).bind
      rintro accepted next ⟨-, tls, uv⟩
      have kept : Ready env next := by
        unfold Ready
        rw [tls, uv]
        exact ready
      exact Behaviour.Ends.ite (fun _ => Behaviour.Ends.pure kept) fun _ => Behaviour.Ends.pure kept
    · exact rejected _

theorem netOnConnect (tlsFp : Option Bytes) (sys : Sys Engine)
    (fresh : Fresh sys) :
    behaviour.Ends (netOnConnect env tlsFp) sys fun _ next => Fresh next := by
  unfold EventLoop.netOnConnect
  refine Behaviour.Ends.ite (fun _ => ?_) fun _ => ?_
  · refine (closed.toCore.along (fun core => (core.netOnError core.doShutdown _).within) sys).mono ?_
    intro _ next along
    exact fresh.along along
  · apply Behaviour.Ends.step rfl (closed.welcomed sys fresh.1 fresh.2)
    apply Behaviour.Ends.step rfl (closed.loginMade _ rfl)
    refine (closed.toCore.along (fun core => core.sendLine (loginLine_ne_nil env _)) _).mono ?_
    intro _ next along
    exact ⟨fun has => (nomatch (along.jobless has : PoolState.connected = .hasJob)),
      along.steady.connected.trans fresh.2⟩

theorem doSendResult (res : MinerResult) (sys : Sys Engine)
    (shared : sys.app.pool.state = .hasJob → behaviour.Change sys (sys.shareMade res))
    (coherent : Coherent env sys) :
    behaviour.Ends (doSendResult env res) sys fun _ next =>
      Coherent env next ∧ Steady sys next := by
  apply Behaviour.Ends.get_bind
  refine Behaviour.Ends.ite (fun _ => Behaviour.Ends.pure ⟨coherent, .refl sys⟩) fun has => ?_
  apply Behaviour.Ends.step rfl (shared (by simpa using has))
  apply Behaviour.Ends.get_bind
  refine (closed.toCore.along (fun core => core.sendLine (submitLine_ne_nil _ res _)) _).mono ?_
  intro _ next along
  have before : Steady sys (sys.shareMade res) := .of_frame rfl rfl rfl
  exact ⟨along.coherent fun has => (coherent has).steady before, before.trans along.steady⟩

/-! ## TLS -/

theorem tlsFail (sys : Sys Engine) (fresh : Fresh sys) :
    behaviour.Ends (tlsFail env) sys fun _ next => Fresh next := by
  refine (closed.toCore.along (fun core => core.tlsFail.within) sys).mono ?_
  intro _ next along
  exact fresh.along along

theorem finishHandshake (rv : Int) (sys : Sys Engine) (fresh : Fresh sys) :
    behaviour.Ends (finishHandshake env rv) sys fun _ next => Fresh next := by
  refine (closed.toCore.along (fun core => core.flushTlsPending core.doShutdown) sys).bind ?_
  intro _ flushed along
  have still := fresh.along along
  refine Behaviour.Ends.ite (fun _ => ?_) fun _ => Behaviour.Ends.pure still
  apply Behaviour.Ends.step rfl (closed.handshaken flushed still.1)
  apply Behaviour.Ends.get_bind
  apply Behaviour.Ends.step rfl (closed.engine _ _)
  split
  · exact closed.tlsFail _ still
  · exact closed.netOnConnect _ _ still

theorem doSslHandshake (sys : Sys Engine) (fresh : Fresh sys) :
    behaviour.Ends (doSslHandshake env) sys fun _ next => Fresh next := by
  apply Behaviour.Ends.get_bind
  apply Behaviour.Ends.step rfl (closed.engine sys _)
  refine Behaviour.Ends.ite (fun _ => ?_) fun _ => closed.finishHandshake _ _ fresh
  refine Behaviour.Ends.bind (closed.tlsFail _ fresh) ?_
  intro _ next still
  exact closed.finishHandshake _ next still

theorem finishCtData (rv : Int) (data : Bytes) (sys : Sys Engine) (ready : Ready env sys) :
    behaviour.Ends (finishCtData env rv data) sys fun _ next => Receiving env next := by
  refine (closed.toCore.along (fun core => core.flushTlsPending core.doShutdown) sys).bind ?_
  intro _ next along
  exact Behaviour.Ends.pure (ready.steady along.steady).receiving

theorem failCtData (data : Bytes) (sys : Sys Engine) (receiving : Receiving env sys) :
    behaviour.Ends (do
      getTlsError env (doShutdown env)
      return ((-1 : Int), data)) sys fun _ next => Receiving env next := by
  refine (closed.toCore.along (fun core => (core.getTlsError core.doShutdown).within) sys).bind ?_
  intro _ next along
  exact Behaviour.Ends.pure
    ⟨along.coherent receiving.1, along.steady.connected.trans receiving.2⟩

theorem consumeCtData (tls : env.useTls = true) (data : Bytes) (sys : Sys Engine)
    (receiving : Receiving env sys) :
    behaviour.Ends (consumeCtData env data) sys fun _ next => Receiving env next := by
  apply Behaviour.Ends.get_bind
  refine Behaviour.Ends.step rfl (closed.engine sys _) ?_
  refine Behaviour.Ends.ite (fun _ => closed.failCtData data _ receiving) fun _ => ?_
  refine Behaviour.Ends.get_bind ?_
  refine Behaviour.Ends.ite (fun shaking => ?_) fun complete => ?_
  · have none : sys.app.pool.state ≠ .hasJob := by
      intro has
      have complete := (receiving.1 has).2 tls
      exact absurd (complete.symm.trans shaking) (by decide)
    refine Behaviour.Ends.bind (closed.doSslHandshake _ ⟨none, receiving.2⟩) ?_
    intro _ next fresh
    exact Behaviour.Ends.pure fresh.receiving
  · have ready : Ready env sys := ⟨receiving.2, fun _ => by simpa using complete⟩
    apply Behaviour.Ends.get_bind
    apply Behaviour.Ends.step rfl (closed.engine _ _)
    refine Behaviour.Ends.ite (fun _ => Behaviour.Ends.pure ready.receiving) fun _ => ?_
    refine Behaviour.Ends.ite (fun _ => ?_) fun _ => ?_
    · refine Behaviour.Ends.bind (consumeLoop_ends closed.fault closed.netOnDataRecv _ _ _ ready) ?_
      rintro ⟨good, ptBuf, ptPos⟩ next kept
      apply Behaviour.Ends.step rfl (closed.plaintext next ptBuf ptPos)
      exact Behaviour.Ends.ite (fun _ => closed.finishCtData _ _ _ kept)
        fun _ => Behaviour.Ends.pure kept.receiving
    · split
      · exact closed.finishCtData _ _ _ ready
      · exact closed.failCtData data _ ready.receiving

theorem onSocketRead (sys : Sys Engine) (receiving : Receiving env sys) :
    behaviour.Ends (onSocketRead env) sys fun _ next => Receiving env next := by
  apply Behaviour.Ends.get_bind
  have consumer : ∀ data state, Receiving env state →
      behaviour.Ends
        ((if env.useTls then EventLoop.consumeCtData env else EventLoop.netOnDataRecv env) data)
        state fun _ next => Receiving env next := by
    intro data state receiving
    split
    · rename_i tls
      exact closed.consumeCtData tls data state receiving
    · rename_i plain
      refine (closed.netOnDataRecv data state (receiving.ready fun tls => absurd tls plain)).mono ?_
      intro _ next ready
      exact ready.receiving
  apply Behaviour.Ends.bind (consumeLoop_ends closed.fault consumer _ _ sys receiving)
  rintro ⟨good, recvBuf, recvPos⟩ next kept
  apply Behaviour.Ends.step rfl (closed.received next recvBuf recvPos)
  exact Behaviour.Ends.pure kept

end Closed

end EpicMiner.EventLoop
