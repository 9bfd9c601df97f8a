import EpicMiner.EventLoop.Footprint
import EpicMiner.Mining.Machine

/-!
Owns the connection between the two machines: whatever jobs a run of the event
loop publishes, the threads around the shared memory have a run with the same
published jobs.
-/

namespace EpicMiner.Mining

open EpicMiner.Library
open EpicMiner.Data

variable {ι κ : Type}

/-! ## Requests end -/

def RequestOp.weight : RequestOp κ → Nat
  | .compare _ => 5
  | _ => 1

def requestWeight : List (RequestOp κ) → Nat
  | [] => 0
  | op :: rest => op.weight + requestWeight rest

theorem requestWeight_calculateDataset (source : DatasetClass κ) (key : κ)
    (rest : List (RequestOp κ)) :
    requestWeight (Dataset.calculateDataset source key ++ rest) < 5 + requestWeight rest := by
  unfold Dataset.calculateDataset
  split <;> simp [requestWeight, RequestOp.weight] <;> omega

theorem requestStep_lighter (source : DatasetClass κ) {dataset : Dataset ι κ}
    (busy : dataset.pending ≠ []) :
    ∃ next, dataset.requestStep source = some next ∧
      requestWeight next.pending < requestWeight dataset.pending := by
  obtain ⟨op, rest, pending⟩ := List.exists_cons_of_ne_nil busy
  refine ⟨_, by rw [Dataset.requestStep, pending], ?_⟩
  rw [pending, requestWeight]
  cases op with
  | compare key =>
      unfold Dataset.request
      dsimp only
      split
      · exact requestWeight_calculateDataset source key rest
      · exact Nat.lt_add_of_pos_left (Nat.succ_pos 4)
  | _ => exact Nat.lt_add_of_pos_left Nat.one_pos

namespace State

variable [DecidableEq ι] {getEpochNumber : Int32 → Int32} {state : State ι}

theorem drain (reachable : (machine getEpochNumber).Reachable state) (ref : DatasetRef) :
    ∃ next : State ι, (machine getEpochNumber).Reachable next ∧ next.script = state.script ∧
      next.published = state.published ∧ (next.datasets ref).pending = [] ∧
        ∀ other, other ≠ ref → next.datasets other = state.datasets other := by
  generalize bound : requestWeight (state.datasets ref).pending = weight
  induction weight using Nat.strong_induction_on generalizing state with
  | h weight inductionHypothesis =>
      by_cases idle : (state.datasets ref).pending = []
      · exact ⟨state, reachable, rfl, rfl, idle, fun _ _ => rfl⟩
      · obtain ⟨dataset, stepped, lighter⟩ := requestStep_lighter (sourceOf ref) idle
        have taken : step getEpochNumber state (.request ref) =
            some (state.withDataset ref dataset) := by
          simp only [step, stepped, Option.map_some]
        have shrinks : requestWeight ((state.withDataset ref dataset).datasets ref).pending <
            weight := by
          simpa [withDataset, ← bound] using lighter
        have between : (machine getEpochNumber).Reachable (state.withDataset ref dataset) :=
          reachable.step taken
        obtain ⟨next, reachableNext, script, published, ended, others⟩ :=
          inductionHypothesis _ shrinks between rfl
        refine ⟨next, reachableNext, script, published, ended, fun other differs => ?_⟩
        exact (others other differs).trans (Function.update_of_ne differs ..)

theorem settle (reachable : (machine getEpochNumber).Reachable state) :
    ∃ next : State ι, (machine getEpochNumber).Reachable next ∧ next.script = state.script ∧
      next.published = state.published ∧ next.NoRequest := by
  obtain ⟨first, reachableFirst, script, published, randomx, -⟩ :=
    drain reachable .randomxDataset
  obtain ⟨second, reachableSecond, sameScript, samePublished, progpow, others⟩ :=
    drain reachableFirst .progpowDataset
  refine ⟨second, reachableSecond, sameScript.trans script, samePublished.trans published, ?_, ?_⟩
  · rw [others .randomxDataset (by decide), randomx]
    rfl
  · rw [progpow]
    rfl

omit [DecidableEq ι] in
theorem access_spec (op : SharedOp) :
    (state.access getEpochNumber op).published = state.published.apply op ∧
      (state.access getEpochNumber op).script = state.script := by
  cases op with
  | publishIdle =>
      by_cases idle : state.published.currentJob.type = .idle <;>
        simp [access, PublishedJobs.apply, currentJob, idle]
  | _ => exact ⟨rfl, rfl⟩

theorem finish (ops : List SharedOp) (reachable : (machine getEpochNumber).Reachable state)
    (script : state.script = ops) (idle : state.NoRequest) :
    ∃ next : State ι, (machine getEpochNumber).Reachable next ∧ next.script = [] ∧
      next.NoRequest ∧ next.published = ops.foldl PublishedJobs.apply state.published := by
  induction ops generalizing state with
  | nil => exact ⟨state, reachable, script, idle, rfl⟩
  | cons op rest inductionHypothesis =>
      have taken : step getEpochNumber state .event =
          some ({ state with script := rest }.access getEpochNumber op) := by
        simp only [step, eventStep, script, idle, if_true]
      obtain ⟨between, reachableBetween, scriptBetween, published, idle⟩ :=
        settle (reachable.step taken)
      have scriptRest : between.script = rest := by rw [scriptBetween, (access_spec op).2]
      obtain ⟨next, reachableNext, ended, idleNext, publishedNext⟩ :=
        inductionHypothesis reachableBetween scriptRest idle
      refine ⟨next, reachableNext, ended, idleNext, ?_⟩
      rw [publishedNext, published, (access_spec op).1, List.foldl_cons]

theorem happens (happenings : List Happening)
    (reachable : (machine getEpochNumber).Reachable state) (script : state.script = [])
    (idle : state.NoRequest) :
    ∃ next : State ι, (machine getEpochNumber).Reachable next ∧ next.script = [] ∧
      next.NoRequest ∧ next.published =
        (happenings.flatMap (Happening.script getEpochNumber)).foldl PublishedJobs.apply
          state.published := by
  induction happenings generalizing state with
  | nil => exact ⟨state, reachable, script, idle, rfl⟩
  | cons happening rest inductionHypothesis =>
      have taken : step getEpochNumber state (.happen happening) =
          some { state with script := happening.script getEpochNumber } := by
        simp [step, script, idle]
      obtain ⟨between, reachableBetween, ended, idleBetween, published⟩ :=
        finish _ (reachable.step taken) rfl idle
      obtain ⟨next, reachableNext, endedNext, idleNext, publishedNext⟩ :=
        inductionHypothesis reachableBetween ended idleBetween
      refine ⟨next, reachableNext, endedNext, idleNext, ?_⟩
      rw [publishedNext, published, List.flatMap_cons, List.foldl_append]

/-- Every list of published jobs that the event loop arrives at, the threads can
come to work with. -/
theorem covers_eventLoop {Engine : Type} (env : EventLoop.Env Engine)
    (sys : EventLoop.Sys Engine) (reachable : (EventLoop.machine env).Reachable sys)
    (miners : ι → CpuMiner) (seed : V32) :
    ∃ state : State ι, (machine env.config.getEpochNumber).Reachable state ∧
      state.script = [] ∧ state.NoRequest ∧ state.published = sys.app.executor.published := by
  obtain ⟨happenings, ops, published⟩ := EventLoop.sharedOps_eq_scripts env sys reachable
  have begin : (machine env.config.getEpochNumber).Reachable (start miners seed) :=
    .start (start_initial miners seed)
  obtain ⟨state, reachableState, script, idle, same⟩ := happens happenings begin rfl ⟨rfl, rfl⟩
  exact ⟨state, reachableState, script, idle, by rw [same, published, ops]; rfl⟩

end State

end EpicMiner.Mining
