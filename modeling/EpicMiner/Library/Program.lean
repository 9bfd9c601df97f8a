import Mathlib.Logic.Relation

/-!
Owns a calculus for programs that update a state and may fault. `Ensures` is
the weakest precondition with a condition on the normal ends and one on the
faults; `Simulated` compares the normal ends of two programs. A `Behaviour` is
what a whole family of programs may do: the changes of state it allows, and the
faults it allows from a state. Behaviours compose, so a fact about a long
program is checked at its elementary steps only.
-/

namespace EpicMiner.Library

/-- Programs over a state `σ` that end in a value or in a fault `ε`. -/
abbrev Program (ε σ : Type) := StateT σ (Except ε)

namespace Program

variable {ε σ τ α β : Type}

/-- Every normal end of `program` from `state` satisfies `post`, and every fault
satisfies `fault`. -/
def Ensures (program : Program ε σ α) (state : σ) (post : α → σ → Prop) (fault : ε → Prop) :
    Prop :=
  match program.run state with
  | .ok (value, next) => post value next
  | .error failure => fault failure

theorem Ensures.mono {program : Program ε σ α} {state : σ} {post weaker : α → σ → Prop}
    {fault : ε → Prop} (ensures : Ensures program state post fault)
    (implies : ∀ value next, post value next → weaker value next) :
    Ensures program state weaker fault := by
  unfold Ensures at *
  split at ensures
  · exact implies _ _ ensures
  · exact ensures

theorem Ensures.of_run {program : Program ε σ α} {state next : σ} {value : α}
    {post : α → σ → Prop} {fault : ε → Prop} (ensures : Ensures program state post fault)
    (ended : program.run state = .ok (value, next)) : post value next := by
  simpa only [Ensures, ended] using ensures

theorem Ensures.of_fault {program : Program ε σ α} {state : σ} {failure : ε}
    {post : α → σ → Prop} {fault : ε → Prop} (ensures : Ensures program state post fault)
    (failed : program.run state = .error failure) : fault failure := by
  simpa only [Ensures, failed] using ensures

theorem Ensures.exists_run {program : Program ε σ α} {state : σ} {post : α → σ → Prop}
    (ensures : Ensures program state post fun _ => False) :
    ∃ value next, program.run state = .ok (value, next) ∧ post value next := by
  unfold Ensures at ensures
  split at ensures
  · exact ⟨_, _, by assumption, ensures⟩
  · exact ensures.elim

theorem Ensures.and {program : Program ε σ α} {state : σ} {left right : α → σ → Prop}
    {fault fault' : ε → Prop} (first : Ensures program state left fault)
    (second : Ensures program state right fault') :
    Ensures program state (fun value next => left value next ∧ right value next)
      (fun failure => fault failure ∧ fault' failure) := by
  unfold Ensures at *
  split at first
  · rename_i ended
    simp only [ended] at second
    exact ⟨first, second⟩
  · rename_i ended
    simp only [ended] at second
    exact ⟨first, second⟩

theorem Ensures.imp {program : Program ε σ α} {state : σ} {post weaker : α → σ → Prop}
    {fault fault' : ε → Prop} (ensures : Ensures program state post fault)
    (implies : ∀ value next, post value next → weaker value next)
    (faults : ∀ failure, fault failure → fault' failure) :
    Ensures program state weaker fault' := by
  unfold Ensures at *
  split at ensures
  · exact implies _ _ ensures
  · exact faults _ ensures

/-! ## Rules for the program formers -/

section Rules

variable {fault : ε → Prop}

@[simp] theorem ensures_pure (value : α) (state : σ) (post : α → σ → Prop) :
    Ensures (pure value : Program ε σ α) state post fault ↔ post value state :=
  Iff.rfl

@[simp] theorem ensures_bind (program : Program ε σ α) (rest : α → Program ε σ β)
    (state : σ) (post : β → σ → Prop) :
    Ensures (program >>= rest) state post fault ↔
      Ensures program state (fun value next => Ensures (rest value) next post fault) fault := by
  unfold Ensures
  simp only [StateT.run_bind]
  cases program.run state with
  | error failure => rfl
  | ok ended => rfl

theorem ensures_bind_of_run {program : Program ε σ α} {rest : α → Program ε σ β}
    {state next : σ} {value : α} {post : β → σ → Prop}
    (ran : program.run state = .ok (value, next)) :
    Ensures (program >>= rest) state post fault ↔ Ensures (rest value) next post fault := by
  rw [ensures_bind]
  simp only [Ensures, ran]

@[simp] theorem ensures_get (state : σ) (post : σ → σ → Prop) :
    Ensures (get : Program ε σ σ) state post fault ↔ post state state :=
  Iff.rfl

@[simp] theorem ensures_modify (update : σ → σ) (state : σ) (post : PUnit → σ → Prop) :
    Ensures (modify update : Program ε σ PUnit) state post fault ↔ post ⟨⟩ (update state) :=
  Iff.rfl

@[simp] theorem ensures_throw (failure : ε) (state : σ) (post : α → σ → Prop) :
    Ensures (throw failure : Program ε σ α) state post fault ↔ fault failure :=
  Iff.rfl

theorem ensures_ite {condition : Prop} [Decidable condition]
    (yes no : Program ε σ α) (state : σ) (post : α → σ → Prop) :
    Ensures (if condition then yes else no) state post fault ↔
      (condition → Ensures yes state post fault) ∧
        (¬ condition → Ensures no state post fault) := by
  by_cases holds : condition <;> simp [holds]

theorem ensures_liftM (computation : Except ε α) (state : σ) (post : α → σ → Prop) :
    Ensures (liftM computation : Program ε σ α) state post fault ↔
      (∀ value, computation = .ok value → post value state) ∧
        ∀ failure, computation = .error failure → fault failure := by
  cases computation with
  | error failure =>
      change fault failure ↔ _
      simp
  | ok value =>
      change post value state ↔ _
      simp

end Rules

/-! ## A program on a part of the state -/

/-- Run a program on the part of the state that `view` reads and `put` writes. -/
def zoom (view : σ → τ) (put : τ → σ → σ) (program : Program ε τ α) : Program ε σ α :=
  fun state =>
    match program.run (view state) with
    | .error failure => .error failure
    | .ok (value, part) => .ok (value, put part state)

theorem run_zoom {view : σ → τ} {put : τ → σ → σ} {program : Program ε τ α} {state : σ}
    {value : α} {part : τ} (ended : program.run (view state) = .ok (value, part)) :
    (zoom view put program).run state = .ok (value, put part state) := by
  have run : (zoom view put program).run state =
      match program.run (view state) with
      | .error failure => .error failure
      | .ok (value, part) => .ok (value, put part state) := rfl
  rw [run, ended]

@[simp] theorem ensures_zoom (view : σ → τ) (put : τ → σ → σ) (program : Program ε τ α)
    (state : σ) (post : α → σ → Prop) (fault : ε → Prop) :
    Ensures (zoom view put program) state post fault ↔
      Ensures program (view state) (fun value part => post value (put part state)) fault := by
  have run : (zoom view put program).run state =
      match program.run (view state) with
      | .error failure => .error failure
      | .ok (value, part) => .ok (value, put part state) := rfl
  unfold Ensures
  rw [run]
  cases program.run (view state) with
  | error failure => rfl
  | ok ended => rfl

/-! ## Simulation -/

/-- Every normal end of `first` is met by a normal end of `second` with the same value, in
states that `post` relates. -/
def Simulated (first : Program ε σ α) (second : Program ε τ α) (state : σ) (other : τ)
    (post : α → σ → τ → Prop) : Prop :=
  Ensures first state
    (fun value next =>
      Ensures second other (fun value' last => value' = value ∧ post value next last)
        fun _ => False)
    fun _ => True

namespace Simulated

variable {first : Program ε σ α} {second : Program ε τ α} {state : σ} {other : τ}
  {post : α → σ → τ → Prop}

theorem pure {value : α} (holds : post value state other) :
    Simulated (Pure.pure value : Program ε σ α) (Pure.pure value : Program ε τ α) state other
      post :=
  ⟨rfl, holds⟩

theorem throw (failure : ε) :
    Simulated (MonadExcept.throw failure : Program ε σ α) second state other post :=
  True.intro

theorem of_run {value : α} {next : σ} (simulated : Simulated first second state other post)
    (ended : first.run state = .ok (value, next)) :
    ∃ last, second.run other = .ok (value, last) ∧ post value next last := by
  obtain ⟨_, last, run, rfl, holds⟩ := (Ensures.of_run simulated ended).exists_run
  exact ⟨last, run, holds⟩

theorem mono {weaker : α → σ → τ → Prop} (simulated : Simulated first second state other post)
    (implies : ∀ value next last, post value next last → weaker value next last) :
    Simulated first second state other weaker :=
  Ensures.mono simulated fun _ _ ended =>
    ended.mono fun _ _ holds => ⟨holds.1, implies _ _ _ holds.2⟩

theorem bind {rest : α → Program ε σ β} {rest' : α → Program ε τ β}
    {known : α → σ → τ → Prop} {post : β → σ → τ → Prop}
    (simulated : Simulated first second state other known)
    (continued : ∀ value next last, known value next last →
      Simulated (rest value) (rest' value) next last post) :
    Simulated (first >>= rest) (second >>= rest') state other post := by
  refine (ensures_bind ..).mpr (Ensures.mono simulated fun value next ended => ?_)
  obtain ⟨_, last, run, rfl, holds⟩ := ended.exists_run
  refine Ensures.mono (continued _ _ _ holds) fun _ _ ended => ?_
  exact (ensures_bind_of_run run).mpr ended

theorem ite {condition : Prop} [Decidable condition] {yes no : Program ε σ α}
    {yes' no' : Program ε τ α}
    (whenTrue : condition → Simulated yes yes' state other post)
    (whenFalse : ¬ condition → Simulated no no' state other post) :
    Simulated (if condition then yes else no) (if condition then yes' else no') state other
      post := by
  by_cases holds : condition
  · simpa only [if_pos holds] using whenTrue holds
  · simpa only [if_neg holds] using whenFalse holds

end Simulated

end Program

/-! ## Behaviours -/

/-- The changes of state and the faults that a family of programs may show. What
goes wrong after an allowed change counts from before it. -/
structure Behaviour (ε σ : Type) where
  Change : σ → σ → Prop
  Fault : σ → ε → Prop
  refl : ∀ state, Change state state
  trans : ∀ {first second third}, Change first second → Change second third →
    Change first third
  fault_trans : ∀ {state next failure}, Change state next → Fault next failure →
    Fault state failure

namespace Behaviour

open Program

variable {ε σ α β : Type}

/-- The behaviour of the programs that keep an invariant and never show a fault
of a given kind while it holds. -/
def keeping (Invariant : σ → Prop) (Bad : ε → Prop) : Behaviour ε σ where
  Change := fun state next => Invariant state → Invariant next
  Fault := fun state failure => Invariant state → ¬ Bad failure
  refl := fun _ holds => holds
  trans := fun first second holds => second (first holds)
  fault_trans := fun change fault holds => fault (change holds)

variable (behaviour : Behaviour ε σ)

/-- `program` behaves from `state`, and its normal ends satisfy `post`. -/
def Ends (program : Program ε σ α) (state : σ) (post : α → σ → Prop) : Prop :=
  Ensures program state (fun value next => behaviour.Change state next ∧ post value next)
    (behaviour.Fault state)

def Within (program : Program ε σ α) : Prop :=
  ∀ state, behaviour.Ends program state fun _ _ => True

variable {behaviour}

theorem Ends.mono {program : Program ε σ α} {state : σ} {post weaker : α → σ → Prop}
    (ends : behaviour.Ends program state post)
    (implies : ∀ value next, post value next → weaker value next) :
    behaviour.Ends program state weaker :=
  Ensures.mono ends fun value next ended => ⟨ended.1, implies value next ended.2⟩

theorem Ends.trivial {program : Program ε σ α} {state : σ} {post : α → σ → Prop}
    (ends : behaviour.Ends program state post) :
    behaviour.Ends program state fun _ _ => True :=
  ends.mono fun _ _ _ => True.intro

theorem Ends.pure {value : α} {state : σ} {post : α → σ → Prop} (holds : post value state) :
    behaviour.Ends (Pure.pure value) state post :=
  ⟨behaviour.refl state, holds⟩

theorem Ends.after {program : Program ε σ α} {state next : σ} {post : α → σ → Prop}
    (rest : behaviour.Ends program next post) (change : behaviour.Change state next) :
    Ensures program next (fun value last => behaviour.Change state last ∧ post value last)
      (behaviour.Fault state) := by
  unfold Ends Ensures at *
  split at rest
  · exact ⟨behaviour.trans change rest.1, rest.2⟩
  · exact behaviour.fault_trans change rest

theorem Ends.bind {program : Program ε σ α} {rest : α → Program ε σ β} {state : σ}
    {known : α → σ → Prop} {post : β → σ → Prop}
    (first : behaviour.Ends program state known)
    (second : ∀ value next, known value next → behaviour.Ends (rest value) next post) :
    behaviour.Ends (program >>= rest) state post := by
  unfold Ends
  rw [ensures_bind]
  apply Ensures.mono first
  rintro value next ⟨change, holds⟩
  exact (second value next holds).after change

theorem Ends.get_bind {rest : σ → Program ε σ α} {state : σ} {post : α → σ → Prop}
    (ends : behaviour.Ends (rest state) state post) :
    behaviour.Ends (get >>= rest) state post :=
  ends

theorem Ends.step {program : Program ε σ α} {rest : α → Program ε σ β} {state next : σ}
    {value : α} {post : β → σ → Prop} (ran : program.run state = .ok (value, next))
    (change : behaviour.Change state next) (ends : behaviour.Ends (rest value) next post) :
    behaviour.Ends (program >>= rest) state post := by
  unfold Ends
  rw [ensures_bind_of_run ran]
  exact ends.after change

theorem Ends.modify {update : σ → σ} {state : σ} {post : PUnit → σ → Prop}
    (change : behaviour.Change state (update state)) (holds : post ⟨⟩ (update state)) :
    behaviour.Ends (modify update : Program ε σ PUnit) state post :=
  ⟨change, holds⟩

theorem Ends.ite {condition : Prop} [Decidable condition] {yes no : Program ε σ α} {state : σ}
    {post : α → σ → Prop} (whenTrue : condition → behaviour.Ends yes state post)
    (whenFalse : ¬ condition → behaviour.Ends no state post) :
    behaviour.Ends (if condition then yes else no) state post := by
  by_cases holds : condition
  · simpa only [if_pos holds] using whenTrue holds
  · simpa only [if_neg holds] using whenFalse holds

theorem Within.bind {program : Program ε σ α} {rest : α → Program ε σ β}
    (first : behaviour.Within program) (second : ∀ value, behaviour.Within (rest value)) :
    behaviour.Within (program >>= rest) :=
  fun state => (first state).bind fun value next _ => second value next

/-! ### Excused faults -/

/-- The same behaviour with some faults excused. -/
def excusing (behaviour : Behaviour ε σ) (Excused : ε → Prop) : Behaviour ε σ where
  Change := behaviour.Change
  Fault := fun state failure => behaviour.Fault state failure ∨ Excused failure
  refl := behaviour.refl
  trans := behaviour.trans
  fault_trans := fun change fault => fault.imp (behaviour.fault_trans change) id

theorem Ends.excusing {Excused : ε → Prop} {program : Program ε σ α} {state : σ}
    {post : α → σ → Prop} (ends : behaviour.Ends program state post) :
    (behaviour.excusing Excused).Ends program state post :=
  Ensures.imp ends (fun _ _ ended => ended) fun _ fault => .inl fault

/-- Faults that count where the program starts need no excuse. -/
theorem Ends.of_excusing {Excused : ε → Prop} {program : Program ε σ α} {state : σ}
    {post : α → σ → Prop} (ends : (behaviour.excusing Excused).Ends program state post)
    (counts : ∀ failure, Excused failure → behaviour.Fault state failure) :
    behaviour.Ends program state post :=
  Ensures.imp ends (fun _ _ ended => ended) fun failure fault => fault.elim id (counts failure)

end Behaviour

end EpicMiner.Library
