import EpicMiner.Library.Machine

/-!
Owns critical sections under one lock. A thread enters with a call, makes the actions of the
body of the call one by one, and leaves when none is left. However the threads interleave,
what they did to the shared state is what the calls do one after the other, in the order in
which they entered; only the last call may be incomplete.
-/

namespace EpicMiner.Library

variable {ι κ α σ : Type*}

/-! ## Actions in a row -/

/-- The actions take the one state to the other, in this order. -/
inductive Runs (Act : α → σ → σ → Prop) : List α → σ → σ → Prop
  | nil (state : σ) : Runs Act [] state state
  | cons {action : α} {rest : List α} {state next last : σ} :
      Act action state next → Runs Act rest next last → Runs Act (action :: rest) state last

namespace Runs

variable {Act : α → σ → σ → Prop} {actions more : List α} {state next last : σ}

theorem append (first : Runs Act actions state next) (second : Runs Act more next last) :
    Runs Act (actions ++ more) state last := by
  induction first with
  | nil => exact second
  | cons act _ inductionHypothesis => exact .cons act (inductionHypothesis second)

theorem single {action : α} (act : Act action state next) : Runs Act [action] state next :=
  .cons act (.nil next)

theorem of_append (runs : Runs Act (actions ++ more) state last) :
    ∃ between, Runs Act actions state between ∧ Runs Act more between last := by
  induction actions generalizing state with
  | nil => exact ⟨state, .nil state, runs⟩
  | cons action rest inductionHypothesis =>
      obtain _ | ⟨act, others⟩ := runs
      obtain ⟨between, first, second⟩ := inductionHypothesis others
      exact ⟨between, .cons act first, second⟩

end Runs

/-! ## The lock -/

/-- The shared state, the thread inside with the actions it has left, and the calls that
entered, latest first. -/
structure Monitor (ι κ α σ : Type*) where
  shared : σ
  holder : Option (ι × List α)
  entered : List (ι × κ)

namespace Monitor

inductive Input (ι κ : Type*) where
  | enter (thread : ι) (call : κ)
  | act
  | leave

inductive Step (body : κ → List α) (Act : α → σ → σ → Prop) (state : Monitor ι κ α σ) :
    Input ι κ → Monitor ι κ α σ → Prop
  | enter (thread : ι) (call : κ) : state.holder = none →
      Step body Act state (.enter thread call)
        { state with
          holder := some (thread, body call)
          entered := (thread, call) :: state.entered }
  | act (thread : ι) (action : α) (rest : List α) (shared : σ) :
      state.holder = some (thread, action :: rest) → Act action state.shared shared →
      Step body Act state .act { state with shared := shared, holder := some (thread, rest) }
  | leave (thread : ι) : state.holder = some (thread, []) →
      Step body Act state .leave { state with holder := none }

def machine (body : κ → List α) (Act : α → σ → σ → Prop) (Initial : σ → Prop) :
    Machine (Monitor ι κ α σ) (Input ι κ) where
  Initial := fun state => Initial state.shared ∧ state.holder = none ∧ state.entered = []
  Step := Step body Act

/-! ## Serial runs -/

/-- The calls, latest first, were made one after the other, each as a whole. -/
inductive Serial (body : κ → List α) (Act : α → σ → σ → Prop) (Initial : σ → Prop) :
    List (ι × κ) → σ → Prop
  | start {state : σ} : Initial state → Serial body Act Initial [] state
  | call {thread : ι} {call : κ} {earlier : List (ι × κ)} {state next : σ} :
      Serial body Act Initial earlier state → Runs Act (body call) state next →
      Serial body Act Initial ((thread, call) :: earlier) next

/-- A free lock finds what a serial run leaves; behind a lock that is held stands one more
call, made as far as its holder has got. -/
structure Serialized (body : κ → List α) (Act : α → σ → σ → Prop) (Initial : σ → Prop)
    (state : Monitor ι κ α σ) : Prop where
  free : state.holder = none → Serial body Act Initial state.entered state.shared
  held : ∀ thread left, state.holder = some (thread, left) →
    ∃ call earlier made before, state.entered = (thread, call) :: earlier ∧
      body call = made ++ left ∧ Serial body Act Initial earlier before ∧
        Runs Act made before state.shared

variable {body : κ → List α} {Act : α → σ → σ → Prop} {Initial : σ → Prop}
  {state : Monitor ι κ α σ}

/-- Every run of the threads is a serial run of their calls. -/
theorem serialized (reachable : (machine body Act Initial).Reachable state) :
    Serialized body Act Initial state := by
  refine reachable.invariant (fun start initial => ?_) fun before input next _ holds step _ => ?_
  · obtain ⟨shared, free, none⟩ := initial
    refine ⟨fun _ => none ▸ .start shared, fun thread left held => ?_⟩
    rw [free] at held
    cases held
  · cases step with
    | enter thread call free =>
        refine ⟨nofun, fun inside left held => ?_⟩
        cases held
        exact ⟨call, before.entered, [], before.shared, rfl, rfl, holds.free free, .nil _⟩
    | act thread action rest shared held act =>
        refine ⟨nofun, fun inside left same => ?_⟩
        cases same
        obtain ⟨call, earlier, made, base, entered, whole, serial, runs⟩ := holds.held _ _ held
        exact ⟨call, earlier, made ++ [action], base, entered, by simp [whole], serial,
          runs.append (.single act)⟩
    | leave thread held =>
        refine ⟨fun _ => ?_, nofun⟩
        obtain ⟨call, earlier, made, base, entered, whole, serial, runs⟩ := holds.held _ _ held
        have complete : body call = made := by simpa using whole
        exact entered ▸ .call serial (complete ▸ runs)

/-- A thread that finds the lock free can make a call as a whole. -/
theorem reachable_call (reachable : (machine body Act Initial).Reachable state)
    (free : state.holder = none) (thread : ι) {call : κ} {next : σ}
    (runs : Runs Act (body call) state.shared next) :
    (machine body Act Initial).Reachable ⟨next, none, (thread, call) :: state.entered⟩ := by
  have inside : ∀ {left : List α} {shared : σ}, Runs Act left shared next →
      (machine body Act Initial).Reachable
        ⟨shared, some (thread, left), (thread, call) :: state.entered⟩ →
      (machine body Act Initial).Reachable
        ⟨next, some (thread, []), (thread, call) :: state.entered⟩ := by
    intro left shared rest
    induction rest with
    | nil => exact id
    | cons act _ inductionHypothesis =>
        intro before
        exact inductionHypothesis runs (Machine.Reachable.step before (.act _ _ _ _ rfl act))
  have entered := Machine.Reachable.step reachable (Step.enter thread call free)
  exact Machine.Reachable.step (inside runs entered) (Step.leave thread rfl)

/-- What holds at the start and is kept by every call as a whole holds whenever the lock is
free. -/
theorem Serial.invariant {Holds : List (ι × κ) → σ → Prop}
    (initial : ∀ state, Initial state → Holds [] state)
    (kept : ∀ thread call earlier state next, Holds earlier state →
      Runs Act (body call) state next → Holds ((thread, call) :: earlier) next)
    {entered : List (ι × κ)} {shared : σ} (serial : Serial body Act Initial entered shared) :
    Holds entered shared := by
  induction serial with
  | start starts => exact initial _ starts
  | call _ runs inductionHypothesis => exact kept _ _ _ _ _ inductionHypothesis runs

end Monitor

end EpicMiner.Library
