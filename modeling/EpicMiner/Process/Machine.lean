import EpicMiner.EventLoop.Shares
import EpicMiner.EventLoop.Slots
import EpicMiner.Mining.Coverage
import EpicMiner.Mining.Results

/-!
Owns the whole process: the event loop, the miner and builder threads, and the
queues of results between them. A callback computes the event loop's own state at
once; its accesses to the memory that the threads read are made one by one after it,
in any order with those of the threads, and before the next callback.
-/

namespace EpicMiner.Process

open EpicMiner.Library
open EpicMiner.Data
open EpicMiner.EventLoop (Sys Effect sharedOps newEntries)
open EpicMiner.Mining (Hashes Found)

variable {Engine ι : Type}

/-- What is fixed for a run: the event loop's surroundings, the hash functions, and
the `thd_id` of each miner. -/
structure Env (Engine ι : Type) where
  loop : EventLoop.Env Engine
  hashes : Hashes
  thdId : ι → UInt32

def Env.getEpochNumber (env : Env Engine ι) : Int32 → Int32 :=
  env.loop.config.getEpochNumber

/-- `resultQ` holds the queue of each miner, oldest result first. `sent` holds the
results that submit lines were formatted for, latest first; the code does not keep
it. -/
structure State (Engine ι : Type) where
  sys : Sys Engine
  mining : Mining.State ι
  resultQ : ι → List Found
  sent : List Found

inductive Input (ι : Type) where
  | callback (input : EventLoop.Input)
  /-- The handler of `miner::async` takes the front of the queue of its miner. The
  event of the input is that result. -/
  | drain (miner : ι) (input : EventLoop.Input)
  /-- An access to shared memory, of the event loop or of a thread. -/
  | access (input : Mining.State.Input ι)

namespace State

variable [DecidableEq ι] (env : Env Engine ι)

/-- The event loop has made all accesses of its last callback. -/
def Between (state : State Engine ι) : Prop :=
  state.mining.script.isEmpty = true ∧ state.mining.NoRequest

instance (state : State Engine ι) : Decidable state.Between := by
  unfold Between
  infer_instance

def callbackStep (input : EventLoop.Input) (state : State Engine ι) : Option (State Engine ι) :=
  if state.Between then
    (EventLoop.step env.loop state.sys input).map fun next =>
      { state with
        sys := next
        mining := { state.mining with script := sharedOps (newEntries state.sys next) } }
  else none

def drainStep (miner : ι) (input : EventLoop.Input) (state : State Engine ι) :
    Option (State Engine ι) :=
  match state.resultQ miner with
  | [] => none
  | found :: rest =>
      (state.callbackStep env { input with event := .foundResult found.result }).map fun next =>
        { next with
          resultQ := Function.update state.resultQ miner rest
          sent := if state.sys.app.pool.state = .hasJob then found :: state.sent else state.sent }

/-- The queues after an access. A miner that ends an iteration puts what it found
into its queue. -/
def queuesAfter (input : Mining.State.Input ι) (state : State Engine ι) : ι → List Found :=
  match input with
  | .miner miner =>
      let thread := state.mining.threads miner
      if thread.phase = .hash then
        Function.update state.resultQ miner
          (state.resultQ miner ++
            thread.finds env.hashes state.mining.datasets (env.thdId miner))
      else state.resultQ
  | _ => state.resultQ

def accessStep (input : Mining.State.Input ι) (state : State Engine ι) :
    Option (State Engine ι) :=
  (state.mining.step env.getEpochNumber input).map fun next =>
    { state with mining := next, resultQ := state.queuesAfter env input }

/-- One step of one thread. Results reach the event loop through the queues alone,
and its accesses are those of its callbacks. -/
def step (state : State Engine ι) (input : Input ι) : Option (State Engine ι) :=
  match input with
  | .callback input =>
      match input.event with
      | .foundResult _ => none
      | _ => state.callbackStep env input
  | .drain miner input => state.drainStep env miner input
  | .access input =>
      match input with
      | .happen _ => none
      | _ => state.accessStep env input

/-- The state in which `executor::run` enters the loop. -/
structure Initial (state : State Engine ι) : Prop where
  sys : EventLoop.Initial state.sys
  mining : Mining.State.Initial state.mining
  resultQ : ∀ miner, state.resultQ miner = []
  sent : state.sent = []

end State

def machine [DecidableEq ι] (env : Env Engine ι) : Machine (State Engine ι) (Input ι) :=
  .ofPartial State.Initial (State.step env)

namespace State

variable [DecidableEq ι] {env : Env Engine ι} {state next : State Engine ι}

/-! ## What a step does -/

/-- The event loop has run a callback. -/
structure Called (env : Env Engine ι) (input : EventLoop.Input) (state next : State Engine ι) :
    Prop where
  script : state.mining.script = []
  loop : (EventLoop.machine env.loop).Step state.sys input next.sys
  mining : next.mining =
    { state.mining with script := sharedOps (newEntries state.sys next.sys) }

inductive Taken (env : Env Engine ι) (state next : State Engine ι) : Input ι → Prop
  | callback (input : EventLoop.Input) : (∀ res, input.event ≠ .foundResult res) →
      Called env input state next → next.resultQ = state.resultQ → next.sent = state.sent →
      Taken env state next (.callback input)
  | drain (miner : ι) (input : EventLoop.Input) (found : Found) (rest : List Found) :
      state.resultQ miner = found :: rest →
      Called env { input with event := .foundResult found.result } state next →
      next.resultQ = Function.update state.resultQ miner rest →
      next.sent =
        (if state.sys.app.pool.state = .hasJob then found :: state.sent else state.sent) →
      Taken env state next (.drain miner input)
  | access (input : Mining.State.Input ι) : (∀ happening, input ≠ .happen happening) →
      state.mining.step env.getEpochNumber input = some next.mining → next.sys = state.sys →
      next.resultQ = state.queuesAfter env input → next.sent = state.sent →
      Taken env state next (.access input)

omit [DecidableEq ι] in
theorem called_of_callbackStep {input : EventLoop.Input}
    (stepped : state.callbackStep env input = some next) :
    Called env input state next ∧ next.resultQ = state.resultQ ∧ next.sent = state.sent := by
  unfold callbackStep at stepped
  split at stepped
  case isFalse => cases stepped
  case isTrue between =>
    obtain ⟨sys, called, rfl⟩ := Option.map_eq_some_iff.mp stepped
    exact ⟨⟨List.isEmpty_iff.mp between.1, called, rfl⟩, rfl, rfl⟩

theorem taken_of_step {input : Input ι} (stepped : state.step env input = some next) :
    Taken env state next input := by
  cases input with
  | callback input =>
      simp only [step] at stepped
      split at stepped
      · cases stepped
      · rename_i other
        obtain ⟨called, resultQ, sent⟩ := called_of_callbackStep stepped
        exact .callback input (fun res found => other res found) called resultQ sent
  | drain miner input =>
      simp only [step, drainStep] at stepped
      split at stepped
      · cases stepped
      · rename_i found rest queue
        obtain ⟨between, called, rfl⟩ := Option.map_eq_some_iff.mp stepped
        obtain ⟨⟨script, loop, mining⟩, -, -⟩ := called_of_callbackStep called
        exact .drain miner input found rest queue ⟨script, loop, mining⟩ rfl rfl
  | access input =>
      simp only [step] at stepped
      split at stepped
      · cases stepped
      · rename_i other
        obtain ⟨mining, taken, rfl⟩ := Option.map_eq_some_iff.mp stepped
        exact .access input other taken rfl rfl rfl

end State

end EpicMiner.Process
