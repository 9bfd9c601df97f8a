import EpicMiner.Library.Simulation
import EpicMiner.Process.Machine

/-!
Owns the way of a found share from a miner thread to the event loop, access by
access: the mutex of the result queue, the queue, and the wake-ups that libuv
may merge. The handler of `miner::async` gives the mutex up while a share is
processed, so a miner can push at any point of the drain loop. The process with
its queues access by access is simulated by the process that has them in one step.
-/

namespace EpicMiner.Process

open EpicMiner.Library
open EpicMiner.EventLoop (MinerResult)

/-! ## One miner -/

/-- Who holds `queue_mtx`. -/
inductive QueueHolder where
  | miner
  | eventLoop
deriving DecidableEq

/-- What a miner thread does next with its queue. -/
inductive PushPhase where
  /-- The miner is somewhere else in its loop. -/
  | elsewhere
  | lock (res : MinerResult)
  | emplaceBack (res : MinerResult)
  | unlock
  | asyncSend
deriving DecidableEq

/-- What the handler of `miner::async` does next. -/
inductive DrainPhase where
  | notRunning
  | lock
  /-- The condition of the loop, with `front` and `pop_front` when it holds. -/
  | test
  | unlock (res : MinerResult)
  | onFoundResult (res : MinerResult)
  /-- The end of the handler, where `lock` is destroyed. -/
  | leave
deriving DecidableEq

/-- The queue of a miner with what its two sides are doing. `async` says that a
wake-up is pending. `pushed` and `passed` are histories, oldest first, of what
the miner pushed and of what `on_found_result` was called with. -/
structure ResultQueue where
  resultQ : List MinerResult
  queueMtx : Option QueueHolder
  async : Bool
  push : PushPhase
  drain : DrainPhase
  pushed : List MinerResult
  passed : List MinerResult
deriving DecidableEq

namespace ResultQueue

def empty : ResultQueue where
  resultQ := []
  queueMtx := none
  async := false
  push := .elsewhere
  drain := .notRunning
  pushed := []
  passed := []

/-- The hash of an iteration meets the target. -/
def find (res : MinerResult) (queue : ResultQueue) : Option ResultQueue :=
  if queue.push = .elsewhere then some { queue with push := .lock res } else none

/-- The next access of the miner thread. -/
def pushStep (queue : ResultQueue) : Option ResultQueue :=
  match queue.push with
  | .elsewhere => none
  | .lock res =>
      if queue.queueMtx = none then
        some { queue with queueMtx := some .miner, push := .emplaceBack res }
      else none
  | .emplaceBack res =>
      some
        { queue with
          resultQ := queue.resultQ ++ [res]
          pushed := queue.pushed ++ [res]
          push := .unlock }
  | .unlock => some { queue with queueMtx := none, push := .asyncSend }
  | .asyncSend => some { queue with async := true, push := .elsewhere }

/-- libuv starts the handler, which takes all wake-ups until now with it. -/
def wake (queue : ResultQueue) : ResultQueue :=
  { queue with async := false, drain := .lock }

/-- The next access of the handler. -/
def drainStep (queue : ResultQueue) : Option ResultQueue :=
  match queue.drain with
  | .notRunning => none
  | .lock =>
      if queue.queueMtx = none then
        some { queue with queueMtx := some .eventLoop, drain := .test }
      else none
  | .test =>
      match queue.resultQ with
      | [] => some { queue with drain := .leave }
      | res :: rest => some { queue with resultQ := rest, drain := .unlock res }
  | .unlock res => some { queue with queueMtx := none, drain := .onFoundResult res }
  | .onFoundResult res =>
      some { queue with passed := queue.passed ++ [res], drain := .lock }
  | .leave => some { queue with queueMtx := none, drain := .notRunning }

end ResultQueue

/-! ## All miners -/

/-- The queues of all miners. The event loop is one thread, so it runs the handler
of one miner at a time. -/
structure QueueState (ι : Type) where
  queues : ι → ResultQueue
  running : Option ι

inductive QueueInput (ι : Type) where
  | find (miner : ι) (res : MinerResult)
  | push (miner : ι)
  | wake (miner : ι)
  | drain

namespace QueueState

variable {ι : Type} [DecidableEq ι]

def withQueue (miner : ι) (queue : ResultQueue) (state : QueueState ι) : QueueState ι :=
  { state with queues := Function.update state.queues miner queue }

/-- One access of one thread. libuv may run a handler even when no wake-up is
pending; that it does run it while one is pending is not a matter of safety. -/
def step (state : QueueState ι) : QueueInput ι → Option (QueueState ι)
  | .find miner res => ((state.queues miner).find res).map fun queue => state.withQueue miner queue
  | .push miner => (state.queues miner).pushStep.map fun queue => state.withQueue miner queue
  | .wake miner =>
      if state.running = none then
        some { state.withQueue miner (state.queues miner).wake with running := some miner }
      else none
  | .drain => do
      let miner ← state.running
      let queue ← (state.queues miner).drainStep
      some
        { state.withQueue miner queue with
          running := if queue.drain = .notRunning then none else some miner }

def start : QueueState ι where
  queues := fun _ => .empty
  running := none

def machine : Machine (QueueState ι) (QueueInput ι) :=
  .ofPartial (· = start) step

end QueueState

/-! ## The invariant of a queue -/

namespace PushPhase

def Holds : PushPhase → Prop
  | .emplaceBack _ | .unlock => True
  | _ => False

/-- The miner is between its push and its `uv_async_send`. -/
def Waking : PushPhase → Prop
  | .unlock | .asyncSend => True
  | _ => False

end PushPhase

namespace DrainPhase

def Holds : DrainPhase → Prop
  | .test | .unlock _ | .leave => True
  | _ => False

/-- The handler will come to the condition of its loop. -/
def Tests : DrainPhase → Prop
  | .notRunning | .leave => False
  | _ => True

/-- The share that was popped and is not passed yet. -/
def held : DrainPhase → List MinerResult
  | .unlock res | .onFoundResult res => [res]
  | _ => []

end DrainPhase

namespace ResultQueue

/-- What is pushed is passed, held by the handler, or queued, in this order, and
whenever shares are queued somebody is going to look at them. -/
structure Orderly (queue : ResultQueue) : Prop where
  minerHolds : queue.queueMtx = some .miner ↔ queue.push.Holds
  eventLoopHolds : queue.queueMtx = some .eventLoop ↔ queue.drain.Holds
  order : queue.pushed = queue.passed ++ queue.drain.held ++ queue.resultQ
  woken : queue.resultQ ≠ [] → queue.async = true ∨ queue.drain.Tests ∨ queue.push.Waking

variable {queue next : ResultQueue}

theorem orderly_empty : empty.Orderly := by
  constructor <;> simp [empty, PushPhase.Holds, DrainPhase.Holds, DrainPhase.held]

theorem Orderly.find (orderly : queue.Orderly) {res : MinerResult}
    (found : queue.find res = some next) : next.Orderly := by
  obtain ⟨minerHolds, eventLoopHolds, order, woken⟩ := orderly
  unfold ResultQueue.find at found
  split at found
  case isFalse => cases found
  case isTrue elsewhere =>
    cases found
    rw [elsewhere] at minerHolds woken
    exact ⟨minerHolds, eventLoopHolds, order, woken⟩

theorem Orderly.pushStep (orderly : queue.Orderly) (stepped : queue.pushStep = some next) :
    next.Orderly := by
  obtain ⟨minerHolds, eventLoopHolds, order, woken⟩ := orderly
  unfold ResultQueue.pushStep at stepped
  split at stepped
  case h_1 => cases stepped
  case h_2 res push =>
    split at stepped
    case isFalse => cases stepped
    case isTrue free =>
      cases stepped
      rw [free] at eventLoopHolds
      rw [push] at woken
      refine ⟨iff_of_true rfl trivial, ?_, order, woken⟩
      simpa using eventLoopHolds
  case h_3 res push =>
    cases stepped
    rw [push] at minerHolds
    refine ⟨minerHolds, eventLoopHolds, ?_, fun _ => .inr (.inr trivial)⟩
    rw [order, List.append_assoc]
  case h_4 push =>
    cases stepped
    have held : queue.queueMtx = some .miner := minerHolds.mpr (push ▸ trivial)
    rw [held] at eventLoopHolds
    refine ⟨iff_of_false nofun id, ?_, order, fun _ => .inr (.inr trivial)⟩
    simpa using eventLoopHolds
  case h_5 push =>
    cases stepped
    rw [push] at minerHolds
    exact ⟨minerHolds, eventLoopHolds, order, fun _ => .inl rfl⟩

theorem Orderly.wake (orderly : queue.Orderly) (notRunning : queue.drain = .notRunning) :
    queue.wake.Orderly := by
  obtain ⟨minerHolds, eventLoopHolds, order, woken⟩ := orderly
  rw [notRunning] at eventLoopHolds order
  exact ⟨minerHolds, eventLoopHolds, order, fun _ => .inr (.inl trivial)⟩

theorem Orderly.drainStep (orderly : queue.Orderly) (stepped : queue.drainStep = some next) :
    next.Orderly := by
  obtain ⟨minerHolds, eventLoopHolds, order, woken⟩ := orderly
  unfold ResultQueue.drainStep at stepped
  split at stepped
  case h_1 => cases stepped
  case h_2 drain =>
    split at stepped
    case isFalse => cases stepped
    case isTrue free =>
      cases stepped
      rw [free] at minerHolds
      rw [drain] at order
      refine ⟨?_, iff_of_true rfl trivial, order, fun _ => .inr (.inl trivial)⟩
      simpa using minerHolds
  case h_3 drain =>
    rw [drain] at eventLoopHolds order
    split at stepped
    case h_1 empty =>
      cases stepped
      exact ⟨minerHolds, eventLoopHolds, order, fun queued => absurd empty queued⟩
    case h_2 res rest queued =>
      cases stepped
      refine ⟨minerHolds, eventLoopHolds, ?_, fun _ => .inr (.inl trivial)⟩
      rw [order, queued]
      simp [DrainPhase.held]
  case h_4 res drain =>
    cases stepped
    have held : queue.queueMtx = some .eventLoop := eventLoopHolds.mpr (drain ▸ trivial)
    rw [held] at minerHolds
    rw [drain] at order
    refine ⟨?_, iff_of_false nofun id, order, fun _ => .inr (.inl trivial)⟩
    simpa using minerHolds
  case h_5 res drain =>
    cases stepped
    rw [drain] at eventLoopHolds order
    refine ⟨minerHolds, eventLoopHolds, ?_, fun _ => .inr (.inl trivial)⟩
    rw [order]
    simp [DrainPhase.held]
  case h_6 drain =>
    cases stepped
    have held : queue.queueMtx = some .eventLoop := eventLoopHolds.mpr (drain ▸ trivial)
    rw [held] at minerHolds
    rw [drain] at order woken
    refine ⟨?_, iff_of_false nofun id, order, woken⟩
    simpa using minerHolds

end ResultQueue

/-! ## The invariant of the queues -/

namespace QueueState

variable {ι : Type} [DecidableEq ι] {state next : QueueState ι}

/-- All queues are orderly, and a handler runs for the one miner it is said to run
for. -/
structure Orderly (state : QueueState ι) : Prop where
  queues : ∀ miner, (state.queues miner).Orderly
  running : ∀ miner, (state.queues miner).drain ≠ .notRunning ↔ state.running = some miner

theorem Orderly.withQueue (orderly : state.Orderly) {miner : ι} {queue : ResultQueue}
    (isOrderly : queue.Orderly)
    (running : queue.drain ≠ .notRunning ↔ next.running = some miner)
    (others : ∀ other, other ≠ miner →
      (next.running = some other ↔ state.running = some other))
    (queues : next.queues = Function.update state.queues miner queue) : next.Orderly := by
  have each : ∀ other, (next.queues other).Orderly ∧
      ((next.queues other).drain ≠ .notRunning ↔ next.running = some other) := by
    intro other
    rw [queues]
    by_cases same : other = miner
    · subst same
      rw [Function.update_self]
      exact ⟨isOrderly, running⟩
    · rw [Function.update_of_ne same, others other same]
      exact ⟨orderly.queues other, orderly.running other⟩
  exact ⟨fun other => (each other).1, fun other => (each other).2⟩

theorem drain_find {queue found : ResultQueue} {res : MinerResult}
    (stepped : queue.find res = some found) : found.drain = queue.drain := by
  unfold ResultQueue.find at stepped
  split at stepped <;> cases stepped
  rfl

theorem drain_pushStep {queue pushed : ResultQueue} (stepped : queue.pushStep = some pushed) :
    pushed.drain = queue.drain := by
  unfold ResultQueue.pushStep at stepped
  split at stepped
  case h_2 =>
    split at stepped <;> cases stepped
    rfl
  all_goals cases stepped
  all_goals rfl

omit [DecidableEq ι] in
theorem Orderly.notRunning (orderly : state.Orderly) (free : state.running = none) (miner : ι) :
    (state.queues miner).drain = .notRunning := by
  by_contra runs
  have held := (orderly.running miner).mp runs
  rw [free] at held
  cases held

theorem Orderly.step (orderly : state.Orderly) {input : QueueInput ι}
    (stepped : state.step input = some next) : next.Orderly := by
  cases input with
  | find miner res =>
      obtain ⟨queue, found, rfl⟩ := Option.map_eq_some_iff.mp stepped
      refine orderly.withQueue ((orderly.queues miner).find found) ?_ (fun _ _ => Iff.rfl) rfl
      rw [drain_find found]
      exact orderly.running miner
  | push miner =>
      obtain ⟨queue, pushed, rfl⟩ := Option.map_eq_some_iff.mp stepped
      refine orderly.withQueue ((orderly.queues miner).pushStep pushed) ?_ (fun _ _ => Iff.rfl) rfl
      rw [drain_pushStep pushed]
      exact orderly.running miner
  | wake miner =>
      simp only [QueueState.step] at stepped
      split at stepped
      case isFalse => cases stepped
      case isTrue free =>
        cases stepped
        have notRunning := orderly.notRunning free miner
        refine orderly.withQueue ((orderly.queues miner).wake notRunning)
          (iff_of_true nofun rfl) ?_ rfl
        intro other differs
        rw [free]
        simp [Ne.symm differs]
  | drain =>
      obtain ⟨miner, runs, stepped⟩ := Option.bind_eq_some_iff.mp stepped
      obtain ⟨queue, drained, stepped⟩ := Option.bind_eq_some_iff.mp stepped
      cases stepped
      refine orderly.withQueue ((orderly.queues miner).drainStep drained) ?_ ?_ rfl
      · by_cases left : queue.drain = .notRunning <;> simp [left]
      · intro other differs
        rw [runs]
        by_cases left : queue.drain = .notRunning <;> simp [left, Ne.symm differs]

theorem reachable_orderly (reachable : (machine : Machine (QueueState ι) _).Reachable state) :
    state.Orderly := by
  refine reachable.invariant ?_ fun _ _ _ _ orderly stepped _ => orderly.step stepped
  rintro _ rfl
  exact ⟨fun _ => ResultQueue.orderly_empty, fun _ => iff_of_false (fun runs => runs rfl) nofun⟩

/-! ## Runs -/

/-- In every run, the shares that reached `on_found_result` are the first of those that
the miner pushed, each once and in this order; and once nobody is about to look at the
queue, it is empty and they are all of them. -/
theorem found_shares_passed (state : QueueState ι)
    (reachable : (machine : Machine (QueueState ι) _).Reachable state) (miner : ι) :
    (state.queues miner).passed <+: (state.queues miner).pushed ∧
      ((state.queues miner).async = false → state.running ≠ some miner →
        ¬ (state.queues miner).push.Waking →
          (state.queues miner).resultQ = [] ∧
            (state.queues miner).passed = (state.queues miner).pushed) := by
  have orderly := reachable_orderly reachable
  obtain ⟨-, -, order, woken⟩ := orderly.queues miner
  constructor
  · rw [order, List.append_assoc]
    exact List.prefix_append _ _
  · intro quiet notRunning settled
    have stopped : (state.queues miner).drain = .notRunning := by
      by_contra runs
      exact notRunning ((orderly.running miner).mp runs)
    have empty : (state.queues miner).resultQ = [] := by
      by_contra queued
      rcases woken queued with pending | tests | waking
      · rw [quiet] at pending
        cases pending
      · rw [stopped] at tests
        exact tests
      · exact settled waking
    refine ⟨empty, ?_⟩
    rw [order, stopped, empty]
    simp [DrainPhase.held]

/-- The two sides of a queue are never inside its mutex together. -/
theorem sides_exclusive (reachable : (machine : Machine (QueueState ι) _).Reachable state)
    (miner : ι) : ¬ ((state.queues miner).push.Holds ∧ (state.queues miner).drain.Holds) := by
  obtain ⟨minerHolds, eventLoopHolds, -, -⟩ := (reachable_orderly reachable).queues miner
  rintro ⟨pushes, drains⟩
  have both := (minerHolds.mpr pushes).symm.trans (eventLoopHolds.mpr drains)
  cases both

/-- The start, up to a share that is pushed while the handler has given up the mutex
for the share before, so that one wake-up comes too late to find anything. -/
def twoShares : List (QueueInput Unit) :=
  let share := fun nonce => ⟨default, nonce, default, 0⟩
  .find () (share 1) :: List.replicate 4 (.push ()) ++ .wake () :: List.replicate 3 .drain ++
    .find () (share 2) :: List.replicate 4 (.push ()) ++ List.replicate 8 .drain ++
      .wake () :: List.replicate 3 .drain

theorem found_shares_passed_twoShares :
    ∃ state : QueueState Unit, (state.queues ()).pushed.length = 2 ∧
      (state.queues ()).resultQ = [] ∧
        (state.queues ()).passed = (state.queues ()).pushed := by
  have executed := @Machine.execute_reachable _ _ (· = start) start rfl QueueState.step twoShares
    (fun state => (state.queues ()).pushed.length = 2 ∧ (state.queues ()).async = false ∧
      state.running ≠ some () ∧ (state.queues ()).push = .elsewhere) _ (by decide +kernel)
  generalize Machine.execute _ _ _ = state at executed
  obtain ⟨reachable, pushed, quiet, notRunning, elsewhere⟩ := executed
  refine ⟨state, pushed, ?_⟩
  apply (found_shares_passed state reachable ()).2 quiet notRunning
  rw [elsewhere]
  exact id

end QueueState

/-! ## The process with its queues -/

/-- The share that the miner has found and not yet put into its queue. -/
def PushPhase.carried : PushPhase → List MinerResult
  | .lock res | .emplaceBack res => [res]
  | _ => []

/-- The shares on their way from the miner's hash to `on_found_result`, oldest first. -/
def ResultQueue.shares (queue : ResultQueue) : List MinerResult :=
  queue.drain.held ++ queue.resultQ ++ queue.push.carried

namespace ResultQueue

variable {queue next : ResultQueue}

theorem shares_find {res : MinerResult} (found : queue.find res = some next) :
    next.shares = queue.shares ++ [res] := by
  unfold ResultQueue.find at found
  split at found
  case isFalse => cases found
  case isTrue elsewhere =>
    cases found
    simp [shares, elsewhere, PushPhase.carried]

theorem shares_pushStep (stepped : queue.pushStep = some next) : next.shares = queue.shares := by
  unfold ResultQueue.pushStep at stepped
  split at stepped
  case h_1 => cases stepped
  case h_2 res push =>
    split at stepped <;> cases stepped
    simp [shares, push, PushPhase.carried]
  all_goals rename_i push
  all_goals cases stepped
  all_goals simp [shares, push, PushPhase.carried]

theorem shares_wake (notRunning : queue.drain = .notRunning) : queue.wake.shares = queue.shares := by
  simp [shares, wake, notRunning, DrainPhase.held]

theorem shares_onFoundResult {res : MinerResult} (drain : queue.drain = .onFoundResult res)
    (stepped : queue.drainStep = some next) : queue.shares = res :: next.shares := by
  unfold ResultQueue.drainStep at stepped
  rw [drain] at stepped
  cases stepped
  simp [shares, drain, DrainPhase.held]

theorem shares_drainStep (other : ∀ res, queue.drain ≠ .onFoundResult res)
    (stepped : queue.drainStep = some next) : next.shares = queue.shares := by
  unfold ResultQueue.drainStep at stepped
  split at stepped
  case h_1 => cases stepped
  case h_2 drain =>
    split at stepped <;> cases stepped
    simp [shares, drain, DrainPhase.held]
  case h_3 drain =>
    split at stepped
    case h_1 empty =>
      cases stepped
      simp [shares, drain, DrainPhase.held]
    case h_2 res rest queued =>
      cases stepped
      simp [shares, drain, queued, DrainPhase.held]
  case h_4 res drain =>
    cases stepped
    simp [shares, drain, DrainPhase.held]
  case h_5 res drain => exact absurd drain (other res)
  case h_6 drain =>
    cases stepped
    simp [shares, drain, DrainPhase.held]

end ResultQueue

/-- The event loop, the memory of the threads, and the queues access by access. -/
structure Wired (Engine ι : Type) where
  sys : EventLoop.Sys Engine
  mining : Mining.State ι
  queues : QueueState ι

inductive Wired.Input (ι : Type) where
  | callback (input : EventLoop.Input)
  | access (input : Mining.State.Input ι)
  | push (miner : ι)
  | wake (miner : ι)
  /-- The next access of the handler. A call of `on_found_result` takes what the environment
  answers from the input. -/
  | drain (input : EventLoop.Input)

namespace Wired

variable {Engine ι : Type} [DecidableEq ι] (env : Env Engine ι)

/-- The process, without its queues. -/
def process (wired : Wired Engine ι) : State Engine ι where
  sys := wired.sys
  mining := wired.mining
  resultQ := fun _ => []
  sent := []

/-- A callback of the event loop, with the queues as they are then. -/
def call (input : EventLoop.Input) (wired : Wired Engine ι) (queues : QueueState ι) :
    Option (Wired Engine ι) :=
  (wired.process.callbackStep env input).map fun next =>
    { sys := next.sys, mining := next.mining, queues := queues }

/-- What a miner finds when it hashes now. -/
def finds (wired : Wired Engine ι) (miner : ι) : List Mining.Found :=
  if (wired.mining.threads miner).phase = .hash then
    (wired.mining.threads miner).finds env.hashes wired.mining.datasets (env.thdId miner)
  else []

def accessStep (wired : Wired Engine ι) (input : Mining.State.Input ι) (queues : QueueState ι) :
    Option (Wired Engine ι) :=
  (wired.mining.step env.getEpochNumber input).map fun mining =>
    { wired with mining := mining, queues := queues }

/-- One step of one thread. A miner pushes what it found before it hashes again, and the handler
goes on once the accesses of the last callback are made. -/
def step (wired : Wired Engine ι) : Wired.Input ι → Option (Wired Engine ι)
  | .callback input =>
      match input.event with
      | .foundResult _ => none
      | _ => if wired.queues.running = none then wired.call env input wired.queues else none
  | .access input =>
      match input with
      | .happen _ => none
      | .miner miner =>
          if (wired.queues.queues miner).push = .elsewhere then
            match wired.finds env miner with
            | [] => wired.accessStep env (.miner miner) wired.queues
            | found :: _ =>
                (wired.queues.step (.find miner found.result)).bind
                  (wired.accessStep env (.miner miner))
          else none
      | input => wired.accessStep env input wired.queues
  | .push miner =>
      (wired.queues.step (.push miner)).map fun queues => { wired with queues := queues }
  | .wake miner =>
      if wired.process.Between then
        (wired.queues.step (.wake miner)).map fun queues => { wired with queues := queues }
      else none
  | .drain input => do
      let miner ← wired.queues.running
      let queues ← wired.queues.step .drain
      match (wired.queues.queues miner).drain with
      | .onFoundResult res => wired.call env { input with event := .foundResult res } queues
      | _ => if wired.process.Between then some { wired with queues := queues } else none

structure Initial (wired : Wired Engine ι) : Prop where
  sys : EventLoop.Initial wired.sys
  mining : Mining.State.Initial wired.mining
  queues : wired.queues = .start

def machine : Machine (Wired Engine ι) (Wired.Input ι) :=
  .ofPartial Initial (Wired.step env)

/-! ### The queues alone -/

section Queues

variable {env : Env Engine ι} {wired next : Wired Engine ι}

omit [DecidableEq ι] in
theorem queues_of_call {input : EventLoop.Input} {queues : QueueState ι}
    (called : wired.call env input queues = some next) : next.queues = queues := by
  obtain ⟨-, -, rfl⟩ := Option.map_eq_some_iff.mp called
  rfl

theorem queues_of_accessStep {input : Mining.State.Input ι} {queues : QueueState ι}
    (accessed : wired.accessStep env input queues = some next) : next.queues = queues := by
  obtain ⟨-, -, rfl⟩ := Option.map_eq_some_iff.mp accessed
  rfl

/-- A step of the process leaves the queues as they are, or is one of theirs. -/
theorem queues_of_step {input : Wired.Input ι} (stepped : wired.step env input = some next) :
    next.queues = wired.queues ∨ ∃ access, wired.queues.step access = some next.queues := by
  cases input with
  | callback input =>
      simp only [step] at stepped
      split at stepped
      · cases stepped
      · split at stepped
        · exact .inl (queues_of_call stepped)
        · cases stepped
  | access input =>
      simp only [step] at stepped
      split at stepped
      · cases stepped
      · split at stepped
        · split at stepped
          · exact .inl (queues_of_accessStep stepped)
          · obtain ⟨queues, found, accessed⟩ := Option.bind_eq_some_iff.mp stepped
            exact .inr ⟨_, queues_of_accessStep accessed ▸ found⟩
        · cases stepped
      · exact .inl (queues_of_accessStep stepped)
  | push miner =>
      obtain ⟨queues, pushed, rfl⟩ := Option.map_eq_some_iff.mp stepped
      exact .inr ⟨_, pushed⟩
  | wake miner =>
      simp only [step] at stepped
      split at stepped
      · obtain ⟨queues, woken, rfl⟩ := Option.map_eq_some_iff.mp stepped
        exact .inr ⟨_, woken⟩
      · cases stepped
  | drain input =>
      obtain ⟨miner, -, stepped⟩ := Option.bind_eq_some_iff.mp stepped
      obtain ⟨queues, drained, stepped⟩ := Option.bind_eq_some_iff.mp stepped
      split at stepped
      · exact .inr ⟨_, queues_of_call stepped ▸ drained⟩
      · split at stepped
        · cases stepped
          exact .inr ⟨_, drained⟩
        · cases stepped

/-- The queues of the process are those of the queues' machine. -/
theorem queues_simulation (env : Env Engine ι) :
    Machine.Simulation (machine env) QueueState.machine fun wired queues =>
      queues = wired.queues where
  initial := fun wired initial => ⟨_, initial.queues, rfl⟩
  step := by
    rintro wired _ input next - rfl stepped
    rcases queues_of_step stepped with same | ⟨access, taken⟩
    · exact ⟨_, .refl, same.symm⟩
    · exact ⟨_, Machine.Steps.single taken, rfl⟩

theorem reachable_queues (reachable : (machine env).Reachable wired) :
    (QueueState.machine (ι := ι)).Reachable wired.queues := by
  obtain ⟨queues, reached, rfl⟩ := (queues_simulation env).reachable reachable
  exact reached

end Queues

/-! ### The queues in one step -/

/-- The process that has its queues in one step, with the shares that are under way. -/
structure Stands (wired : Wired Engine ι) (state : State Engine ι) : Prop where
  sys : state.sys = wired.sys
  mining : state.mining = wired.mining
  resultQ : ∀ miner, (state.resultQ miner).map Mining.Found.result =
    (wired.queues.queues miner).shares

section Shares

variable {env : Env Engine ι} {wired next : Wired Engine ι} {state : State Engine ι}

omit [DecidableEq ι] in
theorem Stands.call (stands : wired.Stands state) {input : EventLoop.Input}
    {queues : QueueState ι} (called : wired.call env input queues = some next) :
    ∃ later, state.callbackStep env input = some later ∧ later.sys = next.sys ∧
      later.mining = next.mining ∧ later.resultQ = state.resultQ := by
  obtain ⟨sys, mining, -⟩ := stands
  obtain ⟨ended, ran, rfl⟩ := Option.map_eq_some_iff.mp called
  unfold State.callbackStep at ran ⊢
  have between : state.Between ↔ wired.process.Between := by
    unfold State.Between
    rw [mining]
    rfl
  split at ran
  case isFalse => cases ran
  case isTrue ready =>
    rw [if_pos (between.mpr ready), sys, mining]
    obtain ⟨last, looped, rfl⟩ := Option.map_eq_some_iff.mp ran
    have same : EventLoop.step env.loop wired.sys input = some last := looped
    rw [same]
    exact ⟨_, rfl, rfl, rfl, rfl⟩

/-- The queues change for one miner, whose shares stay in step. -/
theorem Stands.withQueue (stands : wired.Stands state) {miner : ι} {queue : ResultQueue}
    {later : State Engine ι} (sys : later.sys = next.sys) (mining : later.mining = next.mining)
    (queues : next.queues.queues = Function.update wired.queues.queues miner queue)
    (same : (later.resultQ miner).map Mining.Found.result = queue.shares)
    (others : ∀ other, other ≠ miner → later.resultQ other = state.resultQ other) :
    next.Stands later := by
  refine ⟨sys, mining, fun other => ?_⟩
  rw [queues]
  by_cases acting : other = miner
  · subst acting
    rw [Function.update_self, same]
  · rw [Function.update_of_ne acting, others other acting]
    exact stands.resultQ other

/-- An access of the event loop or of a builder. -/
theorem Stands.access (stands : wired.Stands state) {input : Mining.State.Input ι}
    (notMiner : ∀ miner, input ≠ .miner miner) (notHappen : ∀ happening, input ≠ .happen happening)
    (accessed : wired.accessStep env input wired.queues = some next) :
    ∃ later, (Process.machine env).Steps state later ∧ next.Stands later := by
  obtain ⟨sys, mining, resultQ⟩ := stands
  obtain ⟨after, taken, rfl⟩ := Option.map_eq_some_iff.mp accessed
  have stepped : state.step env (.access input) = some { state with mining := after } := by
    cases input with
    | happen happening => exact absurd rfl (notHappen happening)
    | miner miner => exact absurd rfl (notMiner miner)
    | event | request _ | builder _ _ =>
        simp [State.step, State.accessStep, State.queuesAfter, mining, taken]
  exact ⟨_, Machine.Steps.single stepped, sys, rfl, resultQ⟩

/-- A miner that hashes puts what it finds behind its shares. -/
theorem Stands.minerAccess (stands : wired.Stands state) {miner : ι} {queue : ResultQueue}
    {queues : QueueState ι} (accessed : wired.accessStep env (.miner miner) queues = some next)
    (updated : queues.queues = Function.update wired.queues.queues miner queue)
    (found : queue.shares = (wired.queues.queues miner).shares ++
      (wired.finds env miner).map Mining.Found.result) :
    ∃ later, (Process.machine env).Steps state later ∧ next.Stands later := by
  obtain ⟨after, taken, rfl⟩ := Option.map_eq_some_iff.mp accessed
  have stepped : state.step env (.access (.miner miner)) =
      some { state with
        mining := after
        resultQ := state.queuesAfter env (.miner miner) } := by
    simp [State.step, State.accessStep, stands.mining, taken]
  have appended : state.queuesAfter env (.miner miner) miner =
      state.resultQ miner ++ wired.finds env miner := by
    simp only [State.queuesAfter, finds, stands.mining]
    split <;> simp
  refine ⟨_, Machine.Steps.single stepped, stands.withQueue stands.sys rfl updated ?_ ?_⟩
  · rw [found, ← stands.resultQ miner, ← List.map_append, ← appended]
  · intro other acting
    simp only [State.queuesAfter]
    split
    · exact Function.update_of_ne acting ..
    · rfl

/-- The handler passes the first share under way to `on_found_result`. -/
theorem Stands.drain (stands : wired.Stands state) {miner : ι} {queue : ResultQueue}
    {queues : QueueState ι} {res : MinerResult} {input : EventLoop.Input}
    (called : wired.call env { input with event := .foundResult res } queues = some next)
    (updated : queues.queues = Function.update wired.queues.queues miner queue)
    (first : (wired.queues.queues miner).shares = res :: queue.shares) :
    ∃ later, (Process.machine env).Steps state later ∧ next.Stands later := by
  have waiting := stands.resultQ miner
  rw [first] at waiting
  obtain ⟨found, rest, front, rfl, behind⟩ := List.map_eq_cons_iff.mp waiting
  obtain ⟨after, ran, sys, mining, resultQ⟩ := stands.call called
  have stepped : state.step env (.drain miner input) =
      some { after with
        resultQ := Function.update state.resultQ miner rest
        sent := if state.sys.app.pool.state = .hasJob then found :: state.sent else state.sent } := by
    simp only [State.step, State.drainStep, front, ran, Option.map_some]
  have changed : next.queues.queues = Function.update wired.queues.queues miner queue := by
    rw [queues_of_call called, updated]
  refine ⟨_, Machine.Steps.single stepped, stands.withQueue sys mining changed ?_ ?_⟩
  · simp only [Function.update_self]
    exact behind
  · exact fun other acting => Function.update_of_ne acting ..

omit [DecidableEq ι] in
/-- An iteration finds one share at most. -/
theorem finds_cons {miner : ι} {found : Mining.Found} {others : List Mining.Found}
    (finds : wired.finds env miner = found :: others) : others = [] := by
  unfold Wired.finds Mining.Thread.finds at finds
  split at finds
  · split at finds <;> cases finds
    rfl
  · cases finds

theorem Stands.step (stands : wired.Stands state) (orderly : wired.queues.Orderly)
    {input : Wired.Input ι} (stepped : wired.step env input = some next) :
    ∃ later, (Process.machine env).Steps state later ∧ next.Stands later := by
  cases input with
  | callback input =>
      simp only [Wired.step] at stepped
      split at stepped
      · cases stepped
      · rename_i other
        split at stepped
        case isFalse => cases stepped
        case isTrue =>
          obtain ⟨later, ran, sys, mining, resultQ⟩ := stands.call stepped
          have taken : state.step env (.callback input) = some later := by
            simp only [State.step, ran]
          refine ⟨later, Machine.Steps.single taken, sys, mining, fun miner => ?_⟩
          rw [resultQ, queues_of_call stepped]
          exact stands.resultQ miner
  | access input =>
      simp only [Wired.step] at stepped
      split at stepped
      · cases stepped
      · rename_i miner
        split at stepped
        case isFalse => cases stepped
        case isTrue =>
          split at stepped
          · rename_i nothing
            refine stands.minerAccess stepped (Function.update_eq_self miner _).symm ?_
            rw [nothing, List.map_nil, List.append_nil]
          · rename_i found others share
            obtain ⟨queues, pushing, accessed⟩ := Option.bind_eq_some_iff.mp stepped
            obtain ⟨queue, begun, rfl⟩ := Option.map_eq_some_iff.mp pushing
            refine stands.minerAccess accessed rfl ?_
            rw [ResultQueue.shares_find begun, share, finds_cons share]
            rfl
      · rename_i notHappen notMiner
        exact stands.access notMiner notHappen stepped
  | push miner =>
      obtain ⟨queues, pushed, rfl⟩ := Option.map_eq_some_iff.mp stepped
      obtain ⟨queue, accessed, rfl⟩ := Option.map_eq_some_iff.mp pushed
      refine ⟨state, .refl, stands.withQueue stands.sys stands.mining rfl ?_ fun _ _ => rfl⟩
      rw [ResultQueue.shares_pushStep accessed]
      exact stands.resultQ miner
  | wake miner =>
      simp only [Wired.step, QueueState.step] at stepped
      split at stepped
      case isFalse => cases stepped
      case isTrue =>
        split at stepped
        case isFalse => cases stepped
        case isTrue free =>
          cases stepped
          have notRunning := orderly.notRunning free miner
          refine ⟨state, .refl, stands.withQueue stands.sys stands.mining rfl ?_ fun _ _ => rfl⟩
          rw [ResultQueue.shares_wake notRunning]
          exact stands.resultQ miner
  | drain input =>
      obtain ⟨miner, runs, stepped⟩ := Option.bind_eq_some_iff.mp stepped
      obtain ⟨queues, drained, stepped⟩ := Option.bind_eq_some_iff.mp stepped
      simp only [QueueState.step, runs, Option.bind_eq_bind, Option.bind_some] at drained
      obtain ⟨queue, accessed, same⟩ := Option.bind_eq_some_iff.mp drained
      cases same
      split at stepped
      · rename_i res passing
        exact stands.drain stepped rfl (ResultQueue.shares_onFoundResult passing accessed)
      · rename_i other
        split at stepped
        case isFalse => cases stepped
        case isTrue =>
          cases stepped
          refine ⟨state, .refl, stands.withQueue stands.sys stands.mining rfl ?_ fun _ _ => rfl⟩
          rw [ResultQueue.shares_drainStep other accessed]
          exact stands.resultQ miner

/-- The process that has its queues in one step simulates the one that has them access by
access. -/
theorem simulation (env : Env Engine ι) :
    Machine.Simulation (machine env) (Process.machine env) Stands where
  initial := by
    intro wired initial
    obtain ⟨sys, mining, queues⟩ := initial
    refine ⟨wired.process, ⟨sys, mining, fun _ => rfl, rfl⟩, rfl, rfl, fun miner => ?_⟩
    rw [queues]
    rfl
  step := by
    intro wired state input next reachable stands stepped
    exact stands.step (QueueState.reachable_orderly (reachable_queues reachable)) stepped

/-- Whatever is reached access by access: the queues are in a state that they reach by themselves,
and all else is as in a state of the process that has its queues in one step. -/
theorem refines (reachable : (machine env).Reachable wired) :
    (QueueState.machine (ι := ι)).Reachable wired.queues ∧
      ∃ state, (Process.machine env).Reachable state ∧ wired.Stands state :=
  ⟨reachable_queues reachable, (simulation env).reachable reachable⟩

end Shares

end Wired

end EpicMiner.Process
