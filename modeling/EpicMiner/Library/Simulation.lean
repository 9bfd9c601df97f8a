import EpicMiner.Library.Machine

/-!
Owns forward simulation between transition systems. A simulation matches every step of
the first system by some steps of the second one, so what holds in all runs of the second
holds, as far as the relation carries it, in all runs of the first.
-/

namespace EpicMiner.Library

namespace Machine

variable {σ τ ι κ : Type*}

/-- Related states stay related when the first system takes a step and the second one
follows. The step may use that it is taken from a reachable state. -/
structure Simulation (machine : Machine σ ι) (model : Machine τ κ) (Related : σ → τ → Prop) :
    Prop where
  initial : ∀ state, machine.Initial state → ∃ image, model.Initial image ∧ Related state image
  step : ∀ state image input next, machine.Reachable state → Related state image →
    machine.Step state input next → ∃ later, model.Steps image later ∧ Related next later

namespace Simulation

variable {machine : Machine σ ι} {model : Machine τ κ} {Related : σ → τ → Prop}
  (simulation : Simulation machine model Related)

include simulation

theorem steps {state next : σ} {image : τ} (reachable : machine.Reachable state)
    (related : Related state image) (steps : machine.Steps state next) :
    ∃ later, model.Steps image later ∧ Related next later := by
  induction steps with
  | refl => exact ⟨image, .refl, related⟩
  | @tail before after earlier last inductionHypothesis =>
      obtain ⟨input, step, -⟩ := last
      obtain ⟨between, first, relatedBetween⟩ := inductionHypothesis
      obtain ⟨later, second, relatedLater⟩ :=
        simulation.step before between input after (reachable.steps earlier) relatedBetween step
      exact ⟨later, Relation.ReflTransGen.trans first second, relatedLater⟩

/-- Every reachable state is related to a reachable state of the model. -/
theorem reachable {state : σ} (reachable : machine.Reachable state) :
    ∃ image, model.Reachable image ∧ Related state image := by
  obtain ⟨start, initial, taken⟩ := reachable
  obtain ⟨image, starts, related⟩ := simulation.initial start initial
  obtain ⟨later, steps, relatedLater⟩ := simulation.steps (.start initial) related taken
  exact ⟨later, ⟨image, starts, steps⟩, relatedLater⟩

end Simulation

end Machine

end EpicMiner.Library
