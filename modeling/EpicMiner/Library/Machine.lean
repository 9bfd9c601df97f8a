import Mathlib.Logic.Relation

/-!
Owns transition systems and the induction over their runs. A run may be asked
to meet a condition at each of its steps: `ReachableWhen` collects the states
of exactly those runs, and `Reachable` is the case of no condition.
-/

namespace EpicMiner.Library

/-- A transition system whose steps are labelled by inputs. -/
structure Machine (σ ι : Type*) where
  Initial : σ → Prop
  Step : σ → ι → σ → Prop

namespace Machine

variable {σ ι : Type*} (machine : Machine σ ι)

/-- One step that meets `Allowed`, with its input forgotten. -/
def StepWhen (Allowed : σ → ι → σ → Prop) (state next : σ) : Prop :=
  ∃ input, machine.Step state input next ∧ Allowed state input next

/-- States of the runs whose steps all meet `Allowed`. -/
def ReachableWhen (Allowed : σ → ι → σ → Prop) (state : σ) : Prop :=
  ∃ start, machine.Initial start ∧
    Relation.ReflTransGen (machine.StepWhen Allowed) start state

def Reachable (state : σ) : Prop :=
  machine.ReachableWhen (fun _ _ _ => True) state

variable {machine} {Allowed : σ → ι → σ → Prop}

theorem ReachableWhen.start {state : σ} (initial : machine.Initial state) :
    machine.ReachableWhen Allowed state :=
  ⟨state, initial, .refl⟩

theorem ReachableWhen.step {state next : σ} {input : ι}
    (reachable : machine.ReachableWhen Allowed state)
    (step : machine.Step state input next) (allowed : Allowed state input next) :
    machine.ReachableWhen Allowed next := by
  obtain ⟨start, initial, steps⟩ := reachable
  exact ⟨start, initial, steps.tail ⟨input, step, allowed⟩⟩

theorem Reachable.step {state next : σ} {input : ι} (reachable : machine.Reachable state)
    (step : machine.Step state input next) : machine.Reachable next :=
  ReachableWhen.step reachable step trivial

/-- What holds initially and is kept by every allowed step holds of every state
of every run. The step may use that its own first state is reachable. -/
theorem ReachableWhen.invariant {Invariant : σ → Prop}
    (initial : ∀ state, machine.Initial state → Invariant state)
    (preserved : ∀ state input next, machine.ReachableWhen Allowed state → Invariant state →
      machine.Step state input next → Allowed state input next → Invariant next)
    {state : σ} (reachable : machine.ReachableWhen Allowed state) : Invariant state := by
  obtain ⟨start, starts, steps⟩ := reachable
  induction steps with
  | refl => exact initial start starts
  | tail before last inductionHypothesis =>
      obtain ⟨input, step, allowed⟩ := last
      exact preserved _ input _ ⟨start, starts, before⟩ inductionHypothesis step allowed

theorem ReachableWhen.mono {Weaker : σ → ι → σ → Prop}
    (implies : ∀ state input next, machine.Step state input next →
      Allowed state input next → Weaker state input next) {state : σ}
    (reachable : machine.ReachableWhen Allowed state) : machine.ReachableWhen Weaker state := by
  obtain ⟨start, initial, steps⟩ := reachable
  have forget : machine.StepWhen Allowed ≤ machine.StepWhen Weaker := by
    rintro before after ⟨input, step, allowed⟩
    exact ⟨input, step, implies before input after step allowed⟩
  exact ⟨start, initial, Relation.ReflTransGen.mono forget _ _ steps⟩

theorem ReachableWhen.reachable {state : σ}
    (reachable : machine.ReachableWhen Allowed state) : machine.Reachable state :=
  reachable.mono fun _ _ _ _ _ => trivial

/-- A run may be taken to meet at each step what holds of every reachable state. -/
theorem Reachable.along {Invariant : σ → Prop}
    (holds : ∀ state, machine.Reachable state → Invariant state) {state : σ}
    (reachable : machine.Reachable state) :
    machine.ReachableWhen (fun before _ _ => Invariant before) state := by
  apply ReachableWhen.invariant (fun _ => ReachableWhen.start) _ reachable
  exact fun before input after reached along step _ => along.step step (holds before reached)

/-! ## Runs on from a state -/

/-- Some steps, whatever their inputs. -/
def Steps (machine : Machine σ ι) : σ → σ → Prop :=
  Relation.ReflTransGen (machine.StepWhen fun _ _ _ => True)

theorem Steps.single {state next : σ} {input : ι}
    (step : machine.Step state input next) : machine.Steps state next :=
  Relation.ReflTransGen.single ⟨input, step, trivial⟩

theorem Steps.tail {state next last : σ} {input : ι}
    (steps : machine.Steps state next) (step : machine.Step next input last) :
    machine.Steps state last :=
  Relation.ReflTransGen.tail steps ⟨input, step, trivial⟩

theorem Reachable.steps {state next : σ}
    (reachable : machine.Reachable state) (steps : machine.Steps state next) :
    machine.Reachable next := by
  obtain ⟨start, initial, before⟩ := reachable
  exact ⟨start, initial, before.trans steps⟩

/-! ## Machines given by a partial step function -/

def ofPartial (Initial : σ → Prop) (step : σ → ι → Option σ) : Machine σ ι where
  Initial := Initial
  Step := fun state input next => step state input = some next

def runPartial (step : σ → ι → Option σ) : σ → List ι → Option σ
  | state, [] => some state
  | state, input :: rest =>
      match step state input with
      | none => none
      | some next => runPartial step next rest

theorem runPartial_cons (step : σ → ι → Option σ) (state : σ) (input : ι) (rest : List ι) :
    runPartial step state (input :: rest) =
      (step state input).bind fun next => runPartial step next rest := by
  cases taken : step state input <;> simp [runPartial, taken]

theorem reachable_of_runPartial {Initial : σ → Prop} {step : σ → ι → Option σ}
    (inputs : List ι) {state last : σ}
    (reachable : (ofPartial Initial step).Reachable state)
    (run : runPartial step state inputs = some last) :
    (ofPartial Initial step).Reachable last := by
  induction inputs generalizing state with
  | nil =>
      cases run
      exact reachable
  | cons input rest inductionHypothesis =>
      cases taken : step state input with
      | none => simp [runPartial, taken] at run
      | some next =>
          apply inductionHypothesis (reachable.step taken)
          simpa [runPartial, taken] using run

/-- The last state of a run, or its start when a step is not possible. -/
def execute (step : σ → ι → Option σ) (start : σ) (inputs : List ι) : σ :=
  (runPartial step start inputs).getD start

/-- A run that is executed to its end with a decidable property. -/
theorem execute_reachable {Initial : σ → Prop} {start : σ} (initial : Initial start)
    (step : σ → ι → Option σ) (inputs : List ι) (Property : σ → Prop) [DecidablePred Property]
    (run : (runPartial step start inputs).any (fun last => decide (Property last)) = true) :
    (ofPartial Initial step).Reachable (execute step start inputs) ∧
      Property (execute step start inputs) := by
  unfold execute
  cases ended : runPartial step start inputs with
  | none => simp [ended] at run
  | some last =>
      refine ⟨reachable_of_runPartial inputs (.start initial) ended, ?_⟩
      simpa [ended] using run

/-- A partial step function that refuses the steps which are not allowed. -/
def guard (Allowed : σ → ι → Prop) [∀ state input, Decidable (Allowed state input)]
    (step : σ → ι → Option σ) (state : σ) (input : ι) : Option σ :=
  if Allowed state input then step state input else none

/-- The runs of the guarded machine are the runs that meet the condition. -/
theorem reachableWhen_of_guard {Initial : σ → Prop} {Allowed : σ → ι → Prop}
    [∀ state input, Decidable (Allowed state input)] {step : σ → ι → Option σ} {state : σ}
    (reachable : (ofPartial Initial (guard Allowed step)).Reachable state) :
    (ofPartial Initial step).ReachableWhen (fun before input _ => Allowed before input) state := by
  refine reachable.invariant (fun _ initial => .start initial) ?_
  intro before input next _ inductionHypothesis taken _
  change (if Allowed before input then step before input else none) = some next at taken
  split at taken
  case isTrue allowed => exact inductionHypothesis.step taken allowed
  case isFalse => cases taken

theorem execute_reachableWhen {Initial : σ → Prop} {start : σ} (initial : Initial start)
    (step : σ → ι → Option σ) (Allowed : σ → ι → Prop)
    [∀ state input, Decidable (Allowed state input)] (inputs : List ι)
    (Property : σ → Prop) [DecidablePred Property]
    (run : (runPartial (guard Allowed step) start inputs).any
      (fun last => decide (Property last)) = true) :
    (ofPartial Initial step).ReachableWhen (fun before input _ => Allowed before input)
        (execute (guard Allowed step) start inputs) ∧
      Property (execute (guard Allowed step) start inputs) := by
  obtain ⟨reachable, holds⟩ := execute_reachable initial (guard Allowed step) inputs Property run
  exact ⟨reachableWhen_of_guard reachable, holds⟩

end Machine

end EpicMiner.Library
