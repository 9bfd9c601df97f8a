import EpicMiner.EventLoop.Messages
import EpicMiner.EventLoop.Turns

/-!
Owns the idling of the miners after a connection is lost. `net_on_error` makes
the pool idle at once and leaves switching the miners to the close callback,
which runs only if `uv_shutdown` accepted its request.
-/

namespace EpicMiner.EventLoop

open EpicMiner.Library
open EpicMiner.Library.Program
open EpicMiner.Data

variable {Engine : Type}

def Effect.isRefusal : Effect → Bool
  | .uvShutdown accepted => !accepted
  | _ => false

abbrev NeverRefused (log : List Effect) : Prop :=
  ∀ effect ∈ log, effect.isRefusal = false

theorem neverRefused_append {newer older : List Effect} :
    NeverRefused (newer ++ older) ↔ NeverRefused newer ∧ NeverRefused older := by
  simp [NeverRefused, or_imp, forall_and]

theorem neverRefused_cons {effect : Effect} {log : List Effect} :
    NeverRefused (effect :: log) ↔ effect.isRefusal = false ∧ NeverRefused log := by
  simp [NeverRefused]

/-- Miners that are not idle have a job to work on or a close to wait for. -/
structure Accompanied (sys : Sys Engine) : Prop where
  mining : sys.app.currentType ≠ .idle →
    sys.app.pool.state = .hasJob ∨ sys.net.shuttingDown = true
  closing : sys.net.shuttingDown = true → sys.uv.shutdown = true ∨ sys.uv.closing = true

/-- While no shutdown is refused, miners stay accompanied. -/
def accompanying : Behaviour Fault (Sys Engine) where
  Change := fun sys next => NeverRefused next.app.log →
    NeverRefused sys.app.log ∧ (Accompanied sys → Accompanied next)
  Fault := fun _ _ => True
  refl := fun _ never => ⟨never, id⟩
  trans := fun first second never =>
    ⟨(first (second never).1).1, fun holds => (second never).2 ((first (second never).1).2 holds)⟩
  fault_trans := fun _ _ => trivial

theorem accompanying_logged (sys : Sys Engine) (effect : Effect) :
    accompanying.Change sys (sys.logged effect) :=
  fun never => ⟨(neverRefused_cons.mp never).2, fun holds => { holds with }⟩

theorem accompanying_document (config : Config) (doc : Value) (sys : Sys Engine) (app : App)
    (handled : Handled config (sys.app.record (.document doc)) app) :
    accompanying.Change sys { sys with app := app } := by
  have noted : ∀ before, Noted (sys.app.record (.document doc)) before →
      accompanying.Change sys { sys with app := before } := by
    intro before noted never
    obtain ⟨notes, log, -⟩ := noted.log
    have earlier : NeverRefused (notes ++ Effect.document doc :: sys.app.log) := by
      simpa [log, App.record] using never
    refine ⟨(neverRefused_cons.mp (neverRefused_append.mp earlier).2).2, fun holds => ?_⟩
    refine ⟨?_, holds.closing⟩
    have same : before.currentType = sys.app.currentType := by
      simp [App.currentType, noted.published, App.record]
    have state : before.pool.state = sys.app.pool.state := noted.state
    simpa [same, state] using holds.mining
  cases handled with
  | noted also => exact noted app also
  | @rejected before err job also =>
      intro never
      have earlier : NeverRefused before.log :=
        (neverRefused_cons.mp (neverRefused_cons.mp never).2).2
      refine ⟨(noted before also earlier).1, fun holds => ?_⟩
      exact { (noted before also earlier).2 holds with }
  | @accepted before job also =>
      intro never
      have earlier : NeverRefused before.log := by
        have logged : NeverRefused ([_, _, _, _, _, _, _] ++ before.log) := never
        exact (neverRefused_append.mp logged).2
      refine ⟨(noted before also earlier).1, fun holds => ?_⟩
      exact ⟨fun _ => .inl rfl, holds.closing⟩

theorem accompanying_turn (env : Env Engine) : Turn env accompanying where
  fault := fun _ _ => trivial
  admitted := fun _ _ never => ⟨never, fun holds => { holds with }⟩
  plumbing := by
    intro sys next app down shutdown closing never
    rw [app] at never
    refine ⟨never, fun holds => ?_⟩
    constructor
    · rw [app, down]
      exact holds.mining
    · rw [down, shutdown, closing]
      exact holds.closing
  logError := fun sys text => accompanying_logged sys _
  shutdownCalled := fun sys => accompanying_logged sys _
  uvWrite := fun sys _ _ _ _ => accompanying_logged sys _
  shutdownStarted := by
    intro sys _ _ never
    obtain ⟨accepted, earlier⟩ := neverRefused_cons.mp never
    refine ⟨earlier, fun holds => ⟨fun _ => .inr rfl, fun _ => .inl ?_⟩⟩
    have taken : sys.shutdownAccepted = true := by simpa [Effect.isRefusal] using accepted
    simp [Sys.shutdownStarted, taken]
  jobDropped := fun sys down never =>
    ⟨(neverRefused_cons.mp never).2, fun holds => ⟨fun _ => .inr down, holds.closing⟩⟩
  document := fun sys members _ => Ends.document (fun _ _ => trivial)
    (accompanying_document env.config (.object members) sys)
  welcomed := by
    intro sys none _ never
    refine ⟨never, fun holds => ⟨fun mining => .inr ?_, holds.closing⟩⟩
    exact (holds.mining mining).resolve_left none
  loginMade := fun sys _ never => ⟨(neverRefused_cons.mp never).2, fun holds => { holds with }⟩
  shareMade := fun sys res _ never =>
    ⟨(neverRefused_cons.mp (neverRefused_cons.mp never).2).2, fun holds => { holds with }⟩
  dialled := by
    intro sys idle never
    refine ⟨(neverRefused_cons.mp never).2, fun holds => ⟨fun mining => .inr ?_, holds.closing⟩⟩
    exact (holds.mining mining).resolve_left (by simp [idle])
  shutdownEnded := fun sys _ never => ⟨never, fun holds => ⟨holds.mining, fun _ => .inr rfl⟩⟩
  socketClosed := by
    intro sys _ never
    have logged : NeverRefused ([_, _, _] ++ sys.app.log) := never
    refine ⟨(neverRefused_append.mp logged).2, fun _ => ⟨fun mining => ?_, fun down => ?_⟩⟩
    · exact absurd (App.currentType_disconnected sys.app) mining
    · cases down

theorem reachable_accompanied (env : Env Engine) (sys : Sys Engine)
    (reachable : (machine env).Reachable sys) (never : NeverRefused sys.app.log) :
    Accompanied sys := by
  obtain ⟨start, initial, change⟩ := (accompanying_turn env).run reachable
  refine (change never).2 ⟨fun mining => absurd ?_ mining, fun down => ?_⟩
  · simp [App.currentType, initial.jobIdle, MinerJob.idle]
  · rw [initial.notShuttingDown] at down
    cases down

/-- In every run in which every shutdown request was accepted, a pool without a
job and without a close to wait for has idle miners. -/
theorem miners_idle_without_job (env : Env Engine) (sys : Sys Engine)
    (reachable : (machine env).Reachable sys) (never : NeverRefused sys.app.log)
    (noJob : sys.app.pool.state ≠ .hasJob) (noShutdown : sys.uv.shutdown = false)
    (noClose : sys.uv.closing = false) : sys.app.currentType = .idle := by
  have accompanied := reachable_accompanied env sys reachable never
  by_contra mining
  have down := (accompanied.mining mining).resolve_left noJob
  rcases accompanied.closing down with pending | pending
  · rw [noShutdown] at pending
    cases pending
  · rw [noClose] at pending
    cases pending

/-- A connection that the server ends after its first job, and that is then closed. -/
def lostSession : List Input :=
  sampleSession ++
    [(Event.readError uvEof).at 20040, Event.shutDown.at 20050, Event.closed.at 20060]

theorem miners_idle_after_lostSession :
    (Machine.execute (step .sample) .start lostSession).app.currentType = .idle := by
  obtain ⟨reachable, never, noJob, noShutdown, noClose⟩ :=
    Machine.execute_reachable Sys.start_initial (step .sample) lostSession
      (fun sys => NeverRefused sys.app.log ∧ sys.app.pool.state ≠ .hasJob ∧
        sys.uv.shutdown = false ∧ sys.uv.closing = false) (by decide +kernel)
  exact miners_idle_without_job .sample _ reachable never noJob noShutdown noClose

/-- The connection is lost after its first job, and `uv_shutdown` refuses. -/
def refusedSession : List Input :=
  sampleSession ++ [{ (Event.readError (-104)).at 20040 with acceptsShutdown := false }]

/-- The pool has no job and no callback of its socket is to come, but the miners
still work on the job of the dead connection. -/
theorem miners_mine_after_refusedSession :
    ∃ sys, (machine .sample).Reachable sys ∧ sys.app.pool.state ≠ .hasJob ∧
      sys.uv.shutdown = false ∧ sys.uv.closing = false ∧ sys.app.currentType = .randomx :=
  ⟨_, Machine.execute_reachable Sys.start_initial (step .sample) refusedSession
    (fun sys => sys.app.pool.state ≠ .hasJob ∧ sys.uv.shutdown = false ∧
      sys.uv.closing = false ∧ sys.app.currentType = .randomx) (by decide +kernel)⟩

end EpicMiner.EventLoop
