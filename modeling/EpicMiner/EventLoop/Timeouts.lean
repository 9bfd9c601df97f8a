import EpicMiner.EventLoop.Lifecycle
import EpicMiner.EventLoop.Submit

/-!
Owns the call timeout of the heartbeat. `on_heartbeat` looks at the calls of a pool
that is connected without a job, and at nothing but the number of pools once the
pool has one.
-/

namespace EpicMiner.EventLoop

open EpicMiner.Library
open EpicMiner.Library.Program
open EpicMiner.Data

variable {Engine : Type}

/-- Some call has been unanswered for more than ten seconds. -/
def Overdue (now : Int) (calls : CallMap) : Prop :=
  ∃ mapping ∈ calls.entries, mapping.Live ∧ now - mapping.timeMade > 10000

instance (now : Int) (calls : CallMap) : Decidable (Overdue now calls) := by
  unfold Overdue
  infer_instance

def Established (sys : Sys Engine) : Prop :=
  sys.app.pool.state = .connected ∨ sys.app.pool.state = .hasJob

/-- The heartbeat of an established connection with an overdue call is the call
timeout error, and no established connection has an overdue call after it. -/
structure TimesOut (env : Env Engine) (sys : Sys Engine) (input : Input) : Prop where
  raised : Established sys → Overdue input.now sys.app.pool.calls →
    (callback env .heartbeat).run (sys.answering input) =
      (netOnError env (doShutdown env) (ascii "call timeout")).run (sys.answering input)
  settled : Ensures (callback env .heartbeat) (sys.answering input)
    (fun _ next => Established next → ¬ Overdue input.now next.app.pool.calls) fun _ => True

/-! ## The check -/

theorem any_overdue_iff (now : Int) (calls : CallMap) :
    (calls.entries.any fun mp =>
      mp.type ≠ .invalid && decide (now - mp.timeMade > 10000)) = true ↔ Overdue now calls := by
  simp [Overdue, CallMapping.Live]

theorem checkCallTimeouts_eq (env : Env Engine) (sys : Sys Engine) :
    (checkCallTimeouts env).run sys =
      if Overdue sys.app.now sys.app.pool.calls then
        (netOnError env (doShutdown env) (ascii "call timeout")).run sys
      else .ok ((), sys) := by
  change (if _ then netOnError env (doShutdown env) (ascii "call timeout") else pure ()).run sys = _
  rw [if_congr (any_overdue_iff sys.app.now sys.app.pool.calls) rfl rfl]
  split <;> rfl

/-- An error leaves the pool idle. -/
theorem netOnError_idle (env : Env Engine) (shutdown : Loop Engine Unit) (err : Bytes)
    (sys : Sys Engine) :
    Ensures (netOnError env shutdown err) sys (fun _ next => next.app.pool.state = .idle)
      fun _ => True := by
  unfold netOnError
  rw [ensures_bind_of_run rfl, ensures_bind]
  have whatever : Ensures shutdown (sys.logged (.logError (poolErrorText env.config err)))
      (fun _ _ => True) fun _ => True := by
    unfold Ensures
    split <;> trivial
  exact whatever.mono fun _ next _ => rfl

/-! ## The heartbeat -/

theorem heartbeat_connected (env : Env Engine) {sys : Sys Engine}
    (connected : sys.app.pool.state = .connected) :
    (callback env .heartbeat).run sys = (checkCallTimeouts env).run sys := by
  change (if sys.app.pool.state = .connected then
      checkCallTimeouts env >>= fun _ =>
        if sys.app.pool.state ≠ .connected ∧ sys.app.pool.state ≠ .connecting then dialWhenIdle
        else pure ()
    else _).run sys = _
  simp only [connected, if_true, ne_eq, not_true_eq_false, false_and, if_false]
  exact congrArg (StateT.run · sys) (bind_pure (checkCallTimeouts env))

/-- A pool with a job only waits; it is not due for a dial. -/
theorem heartbeat_hasJob (env : Env Engine) {sys : Sys Engine}
    (hasJob : sys.app.pool.state = .hasJob) :
    (callback env .heartbeat).run sys = .ok ((), sys) := by
  change (if sys.app.pool.state = .connected then _ else
      if sys.app.pool.state ≠ .connected ∧ sys.app.pool.state ≠ .connecting then dialWhenIdle
      else pure ()).run sys = _
  simp only [hasJob, reduceCtorEq, if_false, ne_eq, not_false_eq_true, and_self, if_true]
  change (if sys.app.pool.state = .idle ∧ _ then poolDoConnect else pure ()).run sys = _
  simp only [hasJob, reduceCtorEq, false_and, if_false]
  rfl

theorem heartbeat_unestablished (env : Env Engine) {sys : Sys Engine}
    (apart : ¬ Established sys) :
    Ensures (callback env .heartbeat) sys (fun _ next => ¬ Established next) fun _ => True := by
  have other : sys.app.pool.state ≠ .connected := fun connected => apart (.inl connected)
  change Ensures (onHeartbeat env) sys _ _
  unfold onHeartbeat
  rw [ensures_bind, ensures_get, ensures_ite]
  refine ⟨fun connected => absurd connected other, fun _ => ?_⟩
  rw [ensures_ite]
  refine ⟨fun _ => ?_, fun _ => apart⟩
  unfold dialWhenIdle
  rw [ensures_bind, ensures_get, ensures_ite]
  refine ⟨fun _ => ?_, fun _ => apart⟩
  refine ensures_poolDoConnect.mpr ⟨fun _ => trivial, fun _ => ?_⟩
  rintro (connected | hasJob)
  · cases connected
  · cases hasJob

/-- A pool with a job keeps its overdue calls. -/
theorem not_timesOut_of_hasJob {env : Env Engine} {sys : Sys Engine} {input : Input}
    (hasJob : sys.app.pool.state = .hasJob) (overdue : Overdue input.now sys.app.pool.calls) :
    ¬ TimesOut env sys input := by
  intro timesOut
  have settled := timesOut.settled.of_run
    (heartbeat_hasJob env (show (sys.answering input).app.pool.state = .hasJob from hasJob))
  exact settled (.inr hasJob) overdue

/-- In every state, the heartbeat checks the calls of an established connection
exactly if, given that the pool has a job, no call is overdue. -/
theorem heartbeat_times_out_iff (env : Env Engine) (sys : Sys Engine) (input : Input) :
    TimesOut env sys input ↔
      (sys.app.pool.state = .hasJob → ¬ Overdue input.now sys.app.pool.calls) := by
  constructor
  · intro timesOut hasJob overdue
    exact not_timesOut_of_hasJob hasJob overdue timesOut
  · intro checked
    by_cases connected : sys.app.pool.state = .connected
    · have still : (sys.answering input).app.pool.state = .connected := connected
      have beats : (callback env .heartbeat).run (sys.answering input) =
          if Overdue input.now sys.app.pool.calls then
            (netOnError env (doShutdown env) (ascii "call timeout")).run (sys.answering input)
          else .ok ((), sys.answering input) :=
        (heartbeat_connected env still).trans (checkCallTimeouts_eq env _)
      by_cases overdue : Overdue input.now sys.app.pool.calls
      · rw [if_pos overdue] at beats
        refine ⟨fun _ _ => beats, ?_⟩
        have idle := netOnError_idle env (doShutdown env) (ascii "call timeout")
          (sys.answering input)
        unfold Ensures at idle ⊢
        rw [beats]
        split
        · rename_i ended
          rw [ended] at idle
          rintro (other | other) <;> (rw [idle] at other; cases other)
        · trivial
      · rw [if_neg overdue] at beats
        refine ⟨fun _ late => absurd late overdue, ?_⟩
        unfold Ensures
        rw [beats]
        exact fun _ => overdue
    · by_cases hasJob : sys.app.pool.state = .hasJob
      · have none := checked hasJob
        refine ⟨fun _ late => absurd late none, ?_⟩
        unfold Ensures
        rw [heartbeat_hasJob env (show (sys.answering input).app.pool.state = .hasJob from hasJob)]
        exact fun _ => none
      · have apart : ¬ Established sys := fun established => established.elim connected hasJob
        refine ⟨fun established => absurd established apart, ?_⟩
        have still : ¬ Established (sys.answering input) := apart
        exact (heartbeat_unestablished env still).mono fun _ _ other established =>
          absurd established other

/-- A share is found, and the server answers neither it nor the login call. -/
def unansweredShare : List Input :=
  sampleSession ++ [(Event.foundResult sampleShare).at 20040]

/-- The call of the share is twenty seconds old, and the heartbeat ignores it. -/
theorem unansweredShare_not_timesOut :
    ∃ sys, (machine .sample).Reachable sys ∧ Established sys ∧
      Overdue 40060 sys.app.pool.calls ∧
      ¬ TimesOut .sample sys (Event.heartbeat.at 40060) := by
  have executed := Machine.execute_reachable Sys.start_initial (step .sample) unansweredShare
    (fun sys => sys.app.pool.state = .hasJob ∧ Overdue 40060 sys.app.pool.calls)
    (by decide +kernel)
  generalize Machine.execute _ _ _ = state at executed
  obtain ⟨reachable, hasJob, overdue⟩ := executed
  exact ⟨state, reachable, .inr hasJob, overdue, not_timesOut_of_hasJob hasJob overdue⟩

end EpicMiner.EventLoop
