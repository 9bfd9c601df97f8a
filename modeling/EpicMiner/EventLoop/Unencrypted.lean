import EpicMiner.EventLoop.Consumption
import EpicMiner.EventLoop.Framing

/-!
Owns the plain path beside the TLS path: the same pool over a plain connection, whose buffer
holds the plaintext, answers alike until a call fails.
-/

namespace EpicMiner.EventLoop

open EpicMiner.Library
open EpicMiner.Library.Program
open EpicMiner.Data

variable {Engine : Type}

/-! ## The plain path -/

section Simulation

variable {σ τ : Type} {size : Nat} {consume : Bytes → Program Fault σ (Int × Bytes)}
  {consume' : Bytes → Program Fault τ (Int × Bytes)} {Alike Paired : σ → τ → Prop}
  (call : ∀ data state other, Alike state other →
    Simulated (consume data) (consume' data) state other fun answer next last =>
      Paired next last ∧ (0 ≤ answer.1 → Alike next last))

include call

/-- Two consumers that answer alike, until a call fails, make two alike loops. -/
theorem consumeFrom_simulated (recvPos fuel : Nat) (buffer : Buffer size) (consumed : Nat)
    {state : σ} {other : τ} (alike : Alike state other) :
    Simulated (consumeFrom consume recvPos fuel buffer consumed)
      (consumeFrom consume' recvPos fuel buffer consumed) state other fun ended next last =>
        Paired next last ∧ (ended.1 = true → Alike next last) := by
  induction fuel generalizing buffer consumed state other with
  | zero => exact Simulated.throw _
  | succ fuel inductionHypothesis =>
      apply (call _ state other alike).bind
      rintro ⟨cd, left⟩ next last ⟨paired, kept⟩
      refine Simulated.ite (fun _ => Simulated.pure ⟨paired, nofun⟩) fun good => ?_
      have still : Alike next last := kept (Int.not_lt.mp good)
      refine Simulated.ite (fun _ => Simulated.throw _) fun _ => ?_
      refine Simulated.ite (fun _ => Simulated.pure ⟨paired, fun _ => still⟩) fun _ => ?_
      exact inductionHypothesis _ _ still

theorem consumeLoop_simulated (buffer : Buffer size) (recvPos : Nat) {state : σ} {other : τ}
    (alike : Alike state other) :
    Simulated (consumeLoop consume buffer recvPos) (consumeLoop consume' buffer recvPos) state
      other fun ended next last => Paired next last ∧ (ended.1 = true → Alike next last) := by
  apply (consumeFrom_simulated call recvPos (recvPos + 1) buffer 0 alike).bind
  rintro ⟨good, after, consumed⟩ next last ⟨paired, kept⟩
  refine Simulated.ite (fun isGood => ?_) fun _ => Simulated.pure ⟨paired, nofun⟩
  have still : Alike next last := kept isGood
  exact Simulated.ite (fun _ => Simulated.pure ⟨paired, fun _ => still⟩)
    fun _ => Simulated.pure ⟨paired, fun _ => still⟩

end Simulation

/-- The same pool over a plain connection. -/
def Env.unencrypted (env : Env Engine) : Env Engine :=
  { env with useTls := false }

/-- The plaintext that was not consumed lies in the buffer of the plain connection. -/
def Sys.unencrypted (sys : Sys Engine) : Sys Engine :=
  sys.withReceived sys.tls.ptBuf sys.tls.ptPos

/-- The same pool, at the same point of its shutdown. -/
structure Alike (sys plain : Sys Engine) : Prop where
  app : plain.app = sys.app
  down : plain.net.shuttingDown = sys.net.shuttingDown
  request : plain.net.rShutdown = sys.net.rShutdown

/-- What a failed call leaves of it. -/
structure Paired (sys plain : Sys Engine) : Prop where
  documents : documents plain.app.log = documents sys.app.log
  down : plain.net.shuttingDown = sys.net.shuttingDown
  request : sys.net.shuttingDown = false → plain.net.rShutdown = sys.net.rShutdown

theorem Alike.paired {sys plain : Sys Engine} (alike : Alike sys plain) : Paired sys plain where
  documents := by rw [alike.app]
  down := alike.down
  request := fun _ => alike.request

section Plain

variable {env : Env Engine} {sys plain : Sys Engine}

theorem liftApp_simulated {α : Type} (program : AppProgram α) (alike : Alike sys plain) :
    Simulated (liftApp program : Loop Engine α) (liftApp program) sys plain fun _ next last =>
      Alike next last := by
  unfold Simulated liftApp
  simp only [ensures_zoom]
  rw [alike.app]
  cases run : program.run sys.app with
  | error failure => simp only [Ensures, run]
  | ok ended =>
      simp only [Ensures, run]
      exact ⟨trivial, rfl, alike.down, alike.request⟩

/-- A plain shutdown ends if no request is in use. -/
theorem doShutdown_unencrypted
    (idle : sys.net.shuttingDown = false → sys.net.rShutdown = false) :
    Ensures (doShutdown env.unencrypted) sys
      (fun _ next => documents next.app.log = documents sys.app.log ∧
        next.net.shuttingDown = true) fun _ => False := by
  change Ensures netDoShutdown sys _ _
  refine ensures_netDoShutdown.mpr ⟨fun down => ⟨rfl, down⟩, fun _ _ => ⟨rfl, rfl⟩, ?_⟩
  intro up request
  exact absurd ((idle up).symm.trans request) (by decide)

/-- Where a shutdown ends, no request was in use. -/
theorem idle_of_progress {next : Sys Engine} (progress : ShutdownProgress sys next)
    (down : next.net.shuttingDown = true) (up : sys.net.shuttingDown = false) :
    sys.net.rShutdown = false := by
  rcases progress with ⟨same, -⟩ | ⟨-, idle, -⟩
  · exact absurd (same.symm.trans down) (by simp [up])
  · exact idle

theorem Paired.idle {next : Sys Engine} (paired : Paired sys plain)
    (progress : ShutdownProgress sys next)
    (down : next.net.shuttingDown = true) (up : plain.net.shuttingDown = false) :
    plain.net.rShutdown = false := by
  have still : sys.net.shuttingDown = false := paired.down.symm.trans up
  exact (paired.request still).trans (idle_of_progress progress down still)

/-- A report that ends over TLS ends over the plain path, too. -/
theorem netOnError_simulated (err : Bytes) (alike : Alike sys plain) :
    Simulated (netOnError env (doShutdown env) err)
      (netOnError env.unencrypted (doShutdown env.unencrypted) err) sys plain
      fun _ next last => Paired next last := by
  have reported : Shuts documentless (netOnError env (doShutdown env) err) :=
    documentless_core.netOnError documentless_core.doShutdown err
  have steadily : Shuts steady (netOnError env (doShutdown env) err) :=
    steady_core.netOnError steady_core.doShutdown err
  refine Ensures.imp (Ensures.and (reported sys) (steadily sys)) ?_ fun _ _ => trivial
  rintro _ next ⟨⟨same, down⟩, steady, -⟩
  unfold netOnError
  rw [ensures_bind_of_run rfl, ensures_bind]
  have logged : Paired sys (plain.logged (.logError (poolErrorText env.config err))) :=
    { documents := alike.paired.documents
      down := alike.down
      request := fun _ => alike.request }
  refine Ensures.imp (doShutdown_unencrypted (logged.idle steady.shutdown down)) ?_ fun _ never => never
  rintro _ last ⟨kept, shut⟩
  exact ⟨rfl, (kept.trans logged.documents).trans same.symm, shut.trans down.symm,
    fun up => absurd (down.symm.trans up) (by decide)⟩

theorem netOnDataRecv_simulated (data : Bytes) (alike : Alike sys plain) :
    Simulated (netOnDataRecv env data) (netOnDataRecv env.unencrypted data) sys plain
      fun answer next last => Paired next last ∧ (0 ≤ answer.1 → Alike next last) := by
  unfold netOnDataRecv
  split
  · exact Simulated.pure ⟨alike.paired, fun _ => alike⟩
  · have same : env.unencrypted.config = env.config := rfl
    simp only [same]
    split
    · refine (liftApp_simulated _ alike).bind fun accepted next last still => ?_
      exact Simulated.ite (fun _ => Simulated.pure ⟨still.paired, fun _ => still⟩)
        fun _ => Simulated.pure ⟨still.paired, nofun⟩
    · refine (netOnError_simulated _ alike).bind fun _ next last paired => ?_
      exact Simulated.pure ⟨paired, nofun⟩

end Plain

end EpicMiner.EventLoop
