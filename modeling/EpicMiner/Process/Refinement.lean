import EpicMiner.Library.Simulation
import EpicMiner.Mining.Responsiveness
import EpicMiner.Process.Shares

/-!
Owns the refinement of the threads' machine by the whole process. There the event loop
begins with anything at any time; in the process it does so in its callbacks only, and the
happenings of one callback wait in one script. What is proved of the threads for every
order of happenings therefore holds of the process.
-/

namespace EpicMiner.Process

open EpicMiner.Library
open EpicMiner.Data
open EpicMiner.EventLoop (Attached sharedOps newEntries newEntries_eq)

variable {Engine ι : Type}

/-! ## Upcoming happenings -/

/-- The threads in front of happenings that the event loop has not begun with. -/
def ahead (getEpochNumber : Int32 → Int32) (happenings : List Happening)
    (mining : Mining.State ι) : Mining.State ι :=
  { mining with
    script := mining.script ++ happenings.flatMap (Happening.script getEpochNumber) }

/-- The process has the memory and the threads of the model; the rest of the last callback
is the rest of one happening, and others. -/
def Models (env : Env Engine ι) (state : State Engine ι) (mining : Mining.State ι) : Prop :=
  ∃ happenings, state.mining = ahead env.getEpochNumber happenings mining

theorem script_ne_nil (getEpochNumber : Int32 → Int32) (happening : Happening) :
    happening.script getEpochNumber ≠ [] := by
  cases happening <;> simp [Happening.script]

section Steps

variable [DecidableEq ι] {getEpochNumber : Int32 → Int32}

/-- The accesses of a miner do not look at the script. -/
theorem minerStep_script (miner : ι) (script : List SharedOp) (mining : Mining.State ι) :
    Mining.State.minerStep miner { mining with script := script } =
      (mining.minerStep miner).map fun next => { next with script := script } := by
  unfold Mining.State.minerStep
  dsimp only
  cases phase : (mining.threads miner).phase with
  | load | hash => rfl
  | idle | checkJob | loopHead =>
      dsimp only
      split <;> rfl
  | nextNonce =>
      dsimp only
      split
      · split <;> rfl
      · rfl
  | checkReady =>
      cases (mining.threads miner).currentJob.ds with
      | none => rfl
      | some ref =>
          simp only [Option.bind_eq_bind, Option.bind_some]
          split <;> rfl
  | lockShared =>
      cases (mining.threads miner).currentJob.ds with
      | none => rfl
      | some ref =>
          simp only [Option.bind_eq_bind, Option.bind_some]
          cases (mining.datasets ref).lockShared miner with
          | none => rfl
          | some dataset =>
              simp only [Option.bind_some]
              split <;> rfl
  | unlockShared =>
      cases (mining.threads miner).currentJob.ds with
      | none => rfl
      | some ref => rfl

omit [DecidableEq ι] in
/-- Nor does an access of the event loop look behind itself. -/
theorem access_script (op : SharedOp) (script : List SharedOp) (mining : Mining.State ι) :
    Mining.State.access getEpochNumber op { mining with script := script } =
      { mining.access getEpochNumber op with script := script } := by
  cases op with
  | publishIdle =>
      by_cases idle : mining.published.currentJob.type = .idle <;>
        simp [Mining.State.access, Mining.State.currentJob, idle]
  | _ => rfl

/-- The model makes the access that the event loop is in front of. -/
theorem ahead_event {mining : Mining.State ι} {op : SharedOp} {script : List SharedOp}
    (happenings : List Happening) (current : mining.script = op :: script)
    (idle : mining.NoRequest) :
    ∃ later, (Mining.State.machine getEpochNumber).Step mining .event later ∧
      Mining.State.access getEpochNumber op
          { mining with
            script := script ++ happenings.flatMap (Happening.script getEpochNumber) } =
        ahead getEpochNumber happenings later := by
  refine ⟨{ mining with script := script }.access getEpochNumber op, ?_, ?_⟩
  · change Mining.State.eventStep getEpochNumber mining = _
    simp only [Mining.State.eventStep, current, idle, if_true]
  · rw [access_script op script mining, access_script]
    rfl

/-- An access of the process is one of the model, which begins with a happening before it
when the rest of the last one is used up. -/
theorem ahead_step {mining next : Mining.State ι} {happenings : List Happening}
    {input : Mining.State.Input ι} (other : ∀ happening, input ≠ .happen happening)
    (stepped : (ahead getEpochNumber happenings mining).step getEpochNumber input = some next) :
    ∃ later upcoming, (Mining.State.machine getEpochNumber).Steps mining later ∧
      next = ahead getEpochNumber upcoming later := by
  cases input with
  | happen happening => exact absurd rfl (other happening)
  | event =>
      cases Mining.State.taken_of_step stepped with
      | event op rest script idle =>
          have noRequest : mining.NoRequest := idle
          change mining.script ++ happenings.flatMap (Happening.script getEpochNumber) = op :: rest
            at script
          cases current : mining.script with
          | cons first others =>
              rw [current] at script
              obtain ⟨rfl, rfl⟩ := List.cons.inj script
              obtain ⟨later, step, same⟩ := ahead_event happenings current noRequest
              exact ⟨later, happenings, .single step, same⟩
          | nil =>
              rw [current, List.nil_append] at script
              cases happenings with
              | nil => cases script
              | cons happening happenings =>
                  obtain ⟨first, others, begun⟩ :=
                    List.exists_cons_of_ne_nil (script_ne_nil getEpochNumber happening)
                  rw [List.flatMap_cons, begun] at script
                  obtain ⟨rfl, rfl⟩ := List.cons.inj script
                  let began : Mining.State ι :=
                    { mining with script := happening.script getEpochNumber }
                  have begins : (Mining.State.machine getEpochNumber).Step mining
                      (.happen happening) began := by
                    change Mining.State.step getEpochNumber mining (.happen happening) = _
                    simp [Mining.State.step, current, noRequest, began]
                  have front : began.script = first :: others := begun
                  obtain ⟨later, step, same⟩ := ahead_event happenings front noRequest
                  exact ⟨later, happenings, (Machine.Steps.single begins).tail step, same⟩
  | request ref =>
      obtain ⟨dataset, taken, rfl⟩ := Option.map_eq_some_iff.mp stepped
      have step : (Mining.State.machine getEpochNumber).Step mining (.request ref)
          (mining.withDataset ref dataset) := Option.map_eq_some_iff.mpr ⟨dataset, taken, rfl⟩
      exact ⟨mining.withDataset ref dataset, happenings, .single step, rfl⟩
  | builder ref index =>
      obtain ⟨dataset, taken, rfl⟩ := Option.map_eq_some_iff.mp stepped
      have step : (Mining.State.machine getEpochNumber).Step mining (.builder ref index)
          (mining.withDataset ref dataset) := Option.map_eq_some_iff.mpr ⟨dataset, taken, rfl⟩
      exact ⟨mining.withDataset ref dataset, happenings, .single step, rfl⟩
  | miner miner =>
      have scripted : Mining.State.minerStep miner (ahead getEpochNumber happenings mining) = some next :=
        stepped
      rw [ahead, minerStep_script] at scripted
      obtain ⟨later, taken, rfl⟩ := Option.map_eq_some_iff.mp scripted
      have same : later.script = mining.script := (Mining.State.minerAccess_of_minerStep taken).frame.2.1
      have step : (Mining.State.machine getEpochNumber).Step mining (.miner miner) later := taken
      refine ⟨later, happenings, .single step, ?_⟩
      rw [ahead, same]

end Steps

/-! ## The process -/

section Process

variable [DecidableEq ι] {env : Env Engine ι} {state next : State Engine ι}

omit [DecidableEq ι] in
/-- A callback begins when everything of the last one is done, and leaves a script of
happenings. -/
theorem Models.called {mining : Mining.State ι} (models : Models env state mining)
    (reachable : (EventLoop.machine env.loop).Reachable state.sys) {input : EventLoop.Input}
    (called : State.Called env input state next) : Models env next mining := by
  obtain ⟨happenings, same⟩ := models
  have attached : Attached env.loop state.sys := EventLoop.reachable_attached reachable
  obtain ⟨⟨newer, begun, scripted⟩, -⟩ :=
    (EventLoop.footprint_turn env.loop).step attached called.loop
  have done : mining.script = [] := by
    have script := called.script
    rw [same] at script
    exact (List.append_eq_nil_iff.mp script).1
  refine ⟨begun, ?_⟩
  rw [called.mining, newEntries_eq scripted.log, scripted.ops, same]
  simp only [ahead, done, List.nil_append]
  rfl

theorem Models.step {mining : Mining.State ι} (models : Models env state mining)
    (reachable : (EventLoop.machine env.loop).Reachable state.sys) {input : Input ι}
    (taken : State.Taken env state next input) :
    ∃ later, (Mining.State.machine env.getEpochNumber).Steps mining later ∧
      Models env next later := by
  cases taken with
  | callback input other called resultQ sent =>
      exact ⟨mining, .refl, models.called reachable called⟩
  | drain miner input found rest queue called resultQ sent =>
      exact ⟨mining, .refl, models.called reachable called⟩
  | access input other taken sys resultQ sent =>
      obtain ⟨happenings, same⟩ := models
      rw [same] at taken
      obtain ⟨later, upcoming, steps, same⟩ := ahead_step other taken
      exact ⟨later, steps, upcoming, same⟩

/-- The threads' machine simulates the process. -/
theorem simulation (env : Env Engine ι) :
    Machine.Simulation (machine env) (Mining.State.machine env.getEpochNumber) (Models env) where
  initial := by
    intro state initial
    refine ⟨state.mining, initial.mining, [], ?_⟩
    simp [ahead]
  step := by
    intro state mining input next reachable models stepped
    exact models.step (reachable_consistent reachable).loop (State.taken_of_step stepped)

/-- The process refines both of its halves at once. Its event loop is one of the event loop's
machine; its memory and threads are those of a state that the threads reach by themselves, in
front of the rest of the last callback; and that rest takes the published jobs to those that
the event loop believes in. -/
theorem process_refines (env : Env Engine ι) (state : State Engine ι)
    (reachable : (machine env).Reachable state) :
    (EventLoop.machine env.loop).Reachable state.sys ∧
      (∃ mining, (Mining.State.machine env.getEpochNumber).Reachable mining ∧
        Models env state mining) ∧
      state.mining.script.foldl PublishedJobs.apply state.mining.published =
        state.sys.app.executor.published := by
  have consistent := reachable_consistent reachable
  exact ⟨consistent.loop, (simulation env).reachable reachable, consistent.published⟩

/-- The event loop is within the callback that accepted a job, while the published job is
still the first one. -/
theorem process_refines_withinCallback :
    ∃ state : State Unit Unit, state.mining.script ≠ [] ∧
      state.mining.published ≠ state.sys.app.executor.published ∧
      (EventLoop.machine Env.sample.loop).Reachable state.sys ∧
      (∃ mining, (Mining.State.machine Env.sample.getEpochNumber).Reachable mining ∧
        Models .sample state mining) ∧
      state.mining.script.foldl PublishedJobs.apply state.mining.published =
        state.sys.app.executor.published := by
  have executed := Machine.execute_reachable
    (State.start_initial (fun _ : Unit => .rxCpuMiner) default) (State.step .sample)
    (EventLoop.sampleSession.map .callback ++ [.access .event])
    (fun state => state.mining.script ≠ [] ∧
      state.mining.published.jobs ≠ state.sys.app.executor.published.jobs) (by decide +kernel)
  generalize Machine.execute _ _ _ = state at executed
  obtain ⟨reachable, within, apart⟩ := executed
  exact ⟨state, within, fun same => apart (congrArg PublishedJobs.jobs same),
    process_refines .sample state reachable⟩

/-! ## Replaced jobs -/

theorem State.Between.published (between : state.Between)
    (reachable : (machine env).Reachable state) :
    state.mining.published = state.sys.app.executor.published := by
  have onItsWay := (reachable_consistent reachable).published
  rwa [List.isEmpty_iff.mp between.1] at onItsWay

/-- Between two callbacks, whatever the current job is by then: from there on each miner makes
at most one more hash for the jobs before it, in any order of callbacks, drained results and
accesses of the threads. -/
theorem process_staleHashes_le_one (env : Env Engine ι) (state next : State Engine ι)
    (reachable : (machine env).Reachable state) (between : state.Between)
    (steps : (machine env).Steps state next) (miner : ι) :
    ∃ newer, next.mining.log = newer ++ state.mining.log ∧
      Mining.staleHashes miner state.sys.app.executor.published.current newer ≤ 1 := by
  obtain ⟨mining, -, happenings, same⟩ := (simulation env).reachable reachable
  obtain ⟨later, taken, upcoming, sameLater⟩ :=
    (simulation env).steps reachable ⟨happenings, same⟩ steps
  obtain ⟨newer, appended, few⟩ := Mining.staleHashes_le_one taken miner
  have log : state.mining.log = mining.log := by rw [same]; rfl
  have published : mining.published = state.sys.app.executor.published := by
    rw [← between.published reachable, same]
    rfl
  refine ⟨newer, ?_, published ▸ few⟩
  rw [sameLater, log]
  exact appended

end Process

/-- The connection is lost while the miner hashes. -/
def lostWhileHashing : List (Input Unit) :=
  firstIteration ++
    [.callback ((EventLoop.Event.readError EventLoop.uvEof).at 20040),
      .callback (EventLoop.Event.shutDown.at 20050),
      .callback (EventLoop.Event.closed.at 20060), .access .event, .access .event]

theorem process_staleHashes_le_one_lostWhileHashing :
    ∃ state next : State Unit Unit,
      (state.mining.threads ()).Committed state.sys.app.executor.published.current ∧
        (machine .sample).Step state (.access (.miner ())) next ∧
        ∃ newer, next.mining.log = newer ++ state.mining.log ∧
          Mining.staleHashes () state.sys.app.executor.published.current newer ≤ 1 := by
  have executed := Machine.execute_reachable
    (State.start_initial (fun _ : Unit => .rxCpuMiner) default) (State.step .sample)
    lostWhileHashing
    (fun state => state.Between ∧
      (state.mining.threads ()).Committed state.sys.app.executor.published.current ∧
      (State.step .sample state (.access (.miner ()))).isSome = true) (by decide +kernel)
  generalize Machine.execute _ _ _ = state at executed
  obtain ⟨reachable, between, committed, steps⟩ := executed
  obtain ⟨next, stepped⟩ := Option.isSome_iff_exists.mp steps
  exact ⟨state, next, committed, stepped,
    process_staleHashes_le_one .sample state next reachable between (.single stepped) ()⟩

end EpicMiner.Process
