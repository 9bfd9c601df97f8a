import EpicMiner.EventLoop.Messages
import EpicMiner.EventLoop.Turns

/-!
Owns what a connection may still do while its shutdown is under way. The receive
path does not look at `shutting_down`, so a dying connection is quiet exactly as
long as nothing reaches the pool on it.
-/

namespace EpicMiner.EventLoop

open EpicMiner.Library
open EpicMiner.Library.Program
open EpicMiner.Data

variable {Engine : Type}

/-! ## Dying connections -/

/-- `do_shutdown` was called on the connection, and its close callback has not
run. A new dial starts afresh when no socket of the old connection is left. -/
def dying : List Effect → Bool
  | [] => false
  | .shutdownCalled :: _ => true
  | .closed :: _ => false
  | .dial sockClear :: older => !sockClear && dying older
  | _ :: older => dying older

/-- Entries through which a connection takes effect on the pool, the miners and
the server. -/
def Effect.takesEffect : Effect → Bool
  | .hasJob => true
  | .newJob _ => true
  | .resultReply _ _ _ _ => true
  | .submit _ _ => true
  | _ => false

/-- Entries that say that something reached the pool: a parsed document, or a
share while it has a job. -/
def Effect.arrives : Effect → Bool
  | .document _ => true
  | .share _ => true
  | _ => false

/-- No entry of a kind was made while the connection was dying. -/
def NoneWhileDying (kind : Effect → Bool) : List Effect → Prop
  | [] => True
  | effect :: older => (kind effect = true → dying older = false) ∧ NoneWhileDying kind older

def NoneWhileDying.decide (kind : Effect → Bool) :
    (log : List Effect) → Decidable (NoneWhileDying kind log)
  | [] => .isTrue trivial
  | _ :: older =>
      have := NoneWhileDying.decide kind older
      inferInstanceAs (Decidable ((_ → _) ∧ NoneWhileDying kind older))

instance (kind : Effect → Bool) (log : List Effect) : Decidable (NoneWhileDying kind log) :=
  NoneWhileDying.decide kind log

theorem dying_append {newer older : List Effect}
    (handlings : ∀ effect ∈ newer, effect.isHandling = true) :
    dying (newer ++ older) = dying older := by
  induction newer with
  | nil => rfl
  | cons effect rest inductionHypothesis =>
      have kept := inductionHypothesis fun other member => handlings other (.tail _ member)
      have handling := handlings effect (.head _)
      cases effect <;> first | exact kept | cases handling

theorem NoneWhileDying.of_append {kind : Effect → Bool} {newer older : List Effect}
    (none : NoneWhileDying kind (newer ++ older)) : NoneWhileDying kind older := by
  induction newer with
  | nil => exact none
  | cons effect rest inductionHypothesis => exact inductionHypothesis none.2

theorem NoneWhileDying.append {kind : Effect → Bool} {newer older : List Effect}
    (handlings : ∀ effect ∈ newer, effect.isHandling = true) (alive : dying older = false)
    (none : NoneWhileDying kind older) : NoneWhileDying kind (newer ++ older) := by
  induction newer with
  | nil => exact none
  | cons effect rest inductionHypothesis =>
      have restHandlings := fun other member => handlings other (.tail _ member)
      exact ⟨fun _ => (dying_append restHandlings).trans alive, inductionHypothesis restHandlings⟩

/-! ## Quiet runs -/

/-- While nothing arrives on a dying connection, it takes no effect. -/
def quieting : Behaviour Fault (Sys Engine) where
  Change := fun sys next => NoneWhileDying Effect.arrives next.app.log →
    NoneWhileDying Effect.arrives sys.app.log ∧
      (NoneWhileDying Effect.takesEffect sys.app.log →
        NoneWhileDying Effect.takesEffect next.app.log)
  Fault := fun _ _ => True
  refl := fun _ calm => ⟨calm, id⟩
  trans := fun first second calm =>
    ⟨(first (second calm).1).1, fun quiet => (second calm).2 ((first (second calm).1).2 quiet)⟩
  fault_trans := fun _ _ => trivial

theorem quieting_same {sys next : Sys Engine} (same : next.app.log = sys.app.log) :
    quieting.Change sys next := by
  intro calm
  rw [same] at calm ⊢
  exact ⟨calm, id⟩

theorem quieting_logged {sys next : Sys Engine} (newer : List Effect)
    (log : next.app.log = newer ++ sys.app.log)
    (harmless : ∀ effect ∈ newer, effect.takesEffect = false) : quieting.Change sys next := by
  intro calm
  rw [log] at calm ⊢
  refine ⟨calm.of_append, fun quiet => ?_⟩
  clear calm log
  induction newer with
  | nil => exact quiet
  | cons effect rest inductionHypothesis =>
      refine ⟨fun takes => ?_, inductionHypothesis fun other member => harmless other (.tail _ member)⟩
      rw [harmless effect (.head _)] at takes
      cases takes

theorem quieting_document (config : Config) (doc : Value) (sys : Sys Engine) (app : App)
    (handled : Handled config (sys.app.record (.document doc)) app) :
    quieting.Change sys { sys with app := app } := by
  obtain ⟨newer, log, handlings⟩ := handled.log
  have logged : app.log = newer ++ .document doc :: sys.app.log := log
  intro calm
  change NoneWhileDying Effect.arrives app.log at calm
  change _ ∧ (_ → NoneWhileDying Effect.takesEffect app.log)
  rw [logged] at calm ⊢
  have arrived := calm.of_append
  refine ⟨arrived.2, fun quiet => ?_⟩
  have alive : dying sys.app.log = false := arrived.1 rfl
  exact NoneWhileDying.append handlings alive ⟨fun _ => alive, quiet⟩

theorem quieting_turn (env : Env Engine) : Turn env quieting where
  fault := fun _ _ => trivial
  admitted := fun _ _ => quieting_same rfl
  plumbing := fun _ _ app _ _ _ => quieting_same (by rw [app])
  logError := fun _ _ => quieting_logged [_] rfl (by simp [Effect.takesEffect])
  shutdownCalled := fun _ => quieting_logged [_] rfl (by simp [Effect.takesEffect])
  uvWrite := fun _ _ _ _ _ => quieting_logged [_] rfl (by simp [Effect.takesEffect])
  shutdownStarted := fun _ _ _ => quieting_logged [_] rfl (by simp [Effect.takesEffect])
  jobDropped := fun _ _ => quieting_logged [_] rfl (by simp [Effect.takesEffect])
  document := fun sys members _ => Ends.document (fun _ _ => trivial)
    (quieting_document env.config (.object members) sys)
  welcomed := fun _ _ _ => quieting_same rfl
  loginMade := fun _ _ => quieting_logged [_] rfl (by simp [Effect.takesEffect])
  shareMade := by
    intro sys res _ calm
    have shared : NoneWhileDying Effect.arrives (.submit _ _ :: .share res :: sys.app.log) := calm
    refine ⟨shared.2.2, fun quiet => ⟨fun _ => shared.2.1 rfl, fun takes => ?_, quiet⟩⟩
    cases takes
  dialled := fun _ _ => quieting_logged [_] rfl (by simp [Effect.takesEffect])
  shutdownEnded := fun _ _ => quieting_same rfl
  socketClosed := fun _ _ => quieting_logged [_, _, _] rfl (by simp [Effect.takesEffect])

/-- In every run in which nothing arrives on a dying connection, a dying
connection takes no effect: no job, no reply, no submit. -/
theorem dying_connection_quiet (env : Env Engine) (sys : Sys Engine)
    (reachable : (machine env).Reachable sys)
    (calm : NoneWhileDying Effect.arrives sys.app.log) :
    NoneWhileDying Effect.takesEffect sys.app.log := by
  obtain ⟨start, initial, change⟩ := (quieting_turn env).run reachable
  apply (change calm).2
  rw [initial.logEmpty]
  trivial

/-- A connection whose login call times out and that is then closed. -/
def timedOutSession : List Input :=
  sampleSession.take 4 ++
    [Event.heartbeat.at 31000, Event.shutDown.at 31010, Event.closed.at 31020]

theorem timedOutSession_quiet :
    NoneWhileDying Effect.takesEffect
      (Machine.execute (step .sample) .start timedOutSession).app.log := by
  have executed := Machine.execute_reachable Sys.start_initial (step .sample) timedOutSession
    (fun sys => NoneWhileDying Effect.arrives sys.app.log) (by decide +kernel)
  generalize Machine.execute (step Env.sample) Sys.start timedOutSession = last at executed ⊢
  exact dying_connection_quiet .sample last executed.1 executed.2

/-- The login call times out, and then the server sends its job. -/
def lateJobSession : List Input :=
  sampleSession.take 4 ++
    [Event.heartbeat.at 31000, (Event.read (JobMessage.sample.text ++ [10])).at 31010]

/-- The job that arrives on the dying connection is accepted and published. -/
theorem lateJobSession_not_quiet :
    ∃ sys, (machine .sample).Reachable sys ∧
      ¬ NoneWhileDying Effect.takesEffect sys.app.log ∧ dying sys.app.log = true ∧
      sys.app.pool.state = .hasJob ∧ sys.app.currentType = .randomx :=
  ⟨_, Machine.execute_reachable Sys.start_initial (step .sample) lateJobSession
    (fun sys => ¬ NoneWhileDying Effect.takesEffect sys.app.log ∧ dying sys.app.log = true ∧
      sys.app.pool.state = .hasJob ∧ sys.app.currentType = .randomx) (by decide +kernel)⟩

end EpicMiner.EventLoop
