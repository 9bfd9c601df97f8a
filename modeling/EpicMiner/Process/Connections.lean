import EpicMiner.Process.Shares

/-!
Owns on which connection a result is sent. A result carries no mark of the connection
that its job was received on; a miner that hashes while the connection is replaced
finds for a job that the new one has never sent.
-/

namespace EpicMiner.Process

open EpicMiner.Library
open EpicMiner.Data
open EpicMiner.EventLoop (Effect Received receivedIds publishedBy submitted)
open EpicMiner.Mining (Found)

variable {Engine ι : Type}

/-- The job that a result was found for was received on the present connection, and
the result names it. -/
def FromConnection (log : List Effect) (found : Found) : Prop :=
  ∃ job, Received log found.job job ∧ found.result.id = job.id

/-- Every submit line is that of a result for a job received on the same connection. -/
def OnOwnConnection (state : State Engine ι) : Prop :=
  SentAs FromConnection state

/-- No idle job was pushed behind the one that a result was found for, when the result
is taken from its queue while the pool has a job. -/
def InTime (state : State Engine ι) : Input ι → Prop
  | .drain miner _ =>
      ∀ found ∈ (state.resultQ miner).head?, state.sys.app.pool.state = .hasJob →
        ∀ later ∈ state.sys.app.executor.published.jobs.drop (found.job + 1), later.type ≠ .idle
  | _ => True

/-- The result at the front of a queue is one of the present connection exactly if no
idle job was pushed behind its job. -/
theorem Consistent.fromConnection_iff {env : Env Engine ι} {state : State Engine ι}
    (consistent : Consistent env state) {miner : ι} {found : Found} {rest : List Found}
    (queue : state.resultQ miner = found :: rest) :
    FromConnection (.share found.result :: state.sys.app.log) found ↔
      ∀ later ∈ state.sys.app.executor.published.jobs.drop (found.job + 1),
        later.type ≠ .idle := by
  obtain ⟨job, isJob, genuine⟩ := consistent.sound queue
  have delimited : EventLoop.Delimited (.share found.result :: state.sys.app.log) :=
    .other rfl (EventLoop.reachable_delimited consistent.loop)
  have received := EventLoop.received_iff delimited isJob genuine.hashed.mines
  rw [EventLoop.reachable_published consistent.loop]
  refine Iff.trans ?_ received
  constructor
  · rintro ⟨other, received, -⟩
    have same : some job = some other := isJob.symm.trans received.found
    cases same
    exact received
  · exact fun received => ⟨job, received, genuine.id⟩

/-- What was sent on its own connection in the end was taken in time. The induction is
on the run; the results sent before a step are among those sent after it. -/
theorem inTime_of_onOwnConnection [DecidableEq ι] {env : Env Engine ι} {state : State Engine ι}
    (reachable : (machine env).Reachable state) (own : OnOwnConnection state) :
    (machine env).ReachableWhen (fun before input _ => InTime before input) state := by
  obtain ⟨start, initial, steps⟩ := reachable
  induction steps with
  | refl => exact .start initial
  | @tail before after earlier last inductionHypothesis =>
      obtain ⟨input, stepped, -⟩ := last
      have reachable : (machine env).Reachable before := ⟨start, initial, earlier⟩
      have consistent := reachable_consistent reachable
      unfold OnOwnConnection SentAs at own inductionHypothesis
      rcases sends_of_step consistent (State.taken_of_step stepped) with
        ⟨sent, lines, idle⟩ | ⟨miner, begun, found, rest, rfl, queue, sends⟩
      · rw [sent, lines] at own
        apply (inductionHypothesis own).step stepped
        cases input with
        | drain miner begun => exact fun _ _ hasJob => absurd rfl (idle hasJob miner begun)
        | _ => trivial
      · rw [sends.sent, sends.submitted] at own
        obtain ⟨⟨-, current⟩, own⟩ := List.forall₂_cons.mp own
        apply (inductionHypothesis own).step stepped
        intro front isFront _
        have same : found = front := by simpa [queue] using isFront
        subst same
        exact (consistent.fromConnection_iff queue).mp current

/-- The results that a run has sent were all found for jobs of the connection that they
were sent on, exactly if each was taken from its queue in time. -/
theorem shares_on_own_connection_iff [DecidableEq ι] (env : Env Engine ι)
    (state : State Engine ι) :
    (machine env).ReachableWhen (fun before input _ => InTime before input) state ↔
      (machine env).Reachable state ∧ OnOwnConnection state := by
  constructor
  · intro reachable
    refine ⟨reachable.reachable, sentAs_of_run ?_ reachable⟩
    intro before miner input _ found rest consistent queue hasJob inTime
    rw [consistent.fromConnection_iff queue]
    exact inTime found (by simp [queue]) hasJob
  · rintro ⟨reachable, own⟩
    exact inTime_of_onOwnConnection reachable own

/-! ## A quick reconnect -/

/-- The connection is lost while the miner hashes. The next one receives a job before
the hash is finished. -/
def lateShare : List (Input Unit) :=
  firstIteration ++
    [.callback ((EventLoop.Event.readError EventLoop.uvEof).at 20040),
      .callback (EventLoop.Event.shutDown.at 20050),
      .callback (EventLoop.Event.closed.at 20060), .access .event, .access .event,
      .callback (EventLoop.Event.heartbeat.at 40000),
      .callback ((EventLoop.Event.dnsResolved 0 [⟨.inet, []⟩] 0).at 40010),
      .callback ((EventLoop.Event.connected 0).at 40020),
      .callback ((EventLoop.Event.written EventLoop.firstSlot 0).at 40025),
      .callback ((EventLoop.Event.read (EventLoop.JobMessage.harder.text ++ [10])).at 40030)] ++
    publication 1 1 ++
    [.access (.miner ()), .drain () (EventLoop.Event.heartbeat.at 40040)]

/-- The late share is submitted on the new connection, under an id that was never
received there. -/
theorem late_share_submitted :
    ∃ state : State Unit Unit, (machine .sample).Reachable state ∧
      (∃ line ∈ submitted state.sys.app.log, line.1.id ∉ receivedIds line.2) ∧
        ¬ OnOwnConnection state := by
  have executed := Machine.execute_reachable
    (State.start_initial (fun _ : Unit => .rxCpuMiner) default) (State.step .sample) lateShare
    (fun state => ∃ line ∈ submitted state.sys.app.log, line.1.id ∉ receivedIds line.2)
    (by decide +kernel)
  generalize Machine.execute _ _ _ = state at executed
  obtain ⟨reachable, line, member, unknown⟩ := executed
  refine ⟨state, reachable, ⟨line, member, unknown⟩, fun own => unknown ?_⟩
  obtain ⟨found, same, job, received, id⟩ := own.of_line member
  rw [same, id]
  exact received.mem_receivedIds

end EpicMiner.Process
