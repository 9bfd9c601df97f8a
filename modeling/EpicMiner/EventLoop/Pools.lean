import EpicMiner.EventLoop.Messages
import EpicMiner.EventLoop.Timeouts

/-!
Owns the vector `pools` of the executor: the heartbeat over any number of pools, and
the event loop that serves them. The pools share the executor, its clocks and the log;
each has a connection and a configuration of its own.
-/

namespace EpicMiner.EventLoop

open EpicMiner.Library
open EpicMiner.Library.Program
open EpicMiner.Data

variable {Engine : Type} {count : Nat}

/-! ## The pools -/

/-- What an entry of the vector has of its own. -/
structure Member (Engine : Type) where
  env : Env Engine
  pool : Pool
  net : NetInterface
  tls : TlsInterface Engine
  uv : Uv

/-- A call of `do_connect`: on which pool, the states of all pools then, and the time
since the last attempt of that pool. -/
structure Dial (count : Nat) where
  index : Fin count
  states : Fin count → PoolState
  elapsed : Int

/-- The executor with its pools, and the calls of `do_connect` made so far, latest
first. -/
structure Pools (count : Nat) (Engine : Type) where
  members : Fin count → Member Engine
  executor : Executor
  now : Int
  nowSeconds : Int
  uninitialised : UInt32
  log : List Effect
  dials : List (Dial count)

/-- A fault with the calls of `do_connect` that were made before it. -/
structure Crash (count : Nat) where
  failure : Fault
  dials : List (Dial count)

abbrev PoolsLoop (count : Nat) (Engine : Type) := Program (Crash count) (Pools count Engine)

namespace Pools

def state (pools : Pools count Engine) (i : Fin count) : PoolState :=
  (pools.members i).pool.state

/-- The event loop as one pool sees it. -/
def view (pools : Pools count Engine) (i : Fin count) : Sys Engine where
  app :=
    { pool := (pools.members i).pool
      executor := pools.executor
      now := pools.now
      nowSeconds := pools.nowSeconds
      uninitialised := pools.uninitialised
      log := pools.log }
  net := (pools.members i).net
  tls := (pools.members i).tls
  uv := (pools.members i).uv

def put (pools : Pools count Engine) (i : Fin count) (sys : Sys Engine) :
    Pools count Engine :=
  { pools with
    members := Function.update pools.members i
      { env := (pools.members i).env
        pool := sys.app.pool
        net := sys.net
        tls := sys.tls
        uv := sys.uv }
    executor := sys.app.executor
    now := sys.app.now
    nowSeconds := sys.app.nowSeconds
    uninitialised := sys.app.uninitialised
    log := sys.app.log }

@[simp] theorem view_put (pools : Pools count Engine) (i : Fin count) (sys : Sys Engine) :
    (pools.put i sys).view i = sys := by
  simp [view, put]

def dialOf (pools : Pools count Engine) (i : Fin count) : Dial count where
  index := i
  states := pools.state
  elapsed := pools.now - (pools.members i).pool.lastConnectAttempt

/-- The condition of the second pass. -/
def Due (pools : Pools count Engine) (i : Fin count) : Prop :=
  pools.state i = .idle ∧ pools.now - (pools.members i).pool.lastConnectAttempt > 10000

instance (pools : Pools count Engine) (i : Fin count) : Decidable (pools.Due i) :=
  inferInstanceAs (Decidable (_ ∧ _))

end Pools

/-- Run a program on one pool. -/
def onPool {α : Type} (i : Fin count) (program : Env Engine → Loop Engine α) :
    PoolsLoop count Engine α := fun pools =>
  match (program (pools.members i).env).run (pools.view i) with
  | .error failure => .error ⟨failure, pools.dials⟩
  | .ok (value, sys) => .ok (value, pools.put i sys)

theorem run_onPool {α : Type} (i : Fin count) (program : Env Engine → Loop Engine α)
    (pools : Pools count Engine) :
    (onPool i program).run pools =
      match (program (pools.members i).env).run (pools.view i) with
      | .error failure => .error ⟨failure, pools.dials⟩
      | .ok (value, sys) => .ok (value, pools.put i sys) := rfl

/-! ## Heartbeat -/

/-- The first pass of `on_heartbeat`. A state is read once, before the timeout check may
change it. -/
def countPools : List (Fin count) → Nat → Nat → PoolsLoop count Engine (Nat × Nat)
  | [], connectedPools, connectingPools => return (connectedPools, connectingPools)
  | i :: rest, connectedPools, connectingPools => do
      let st := (← get).state i
      if st = .connected then
        onPool i checkCallTimeouts
        countPools rest (connectedPools + 1) connectingPools
      else if st = .connecting then
        countPools rest connectedPools (connectingPools + 1)
      else
        countPools rest connectedPools connectingPools

/-- `pool::do_connect` on an entry of the vector. -/
def dial (i : Fin count) : PoolsLoop count Engine Unit := do
  modify fun pools => { pools with dials := pools.dialOf i :: pools.dials }
  onPool i fun _ => poolDoConnect

/-- The second pass of `on_heartbeat`, left after the first call of `do_connect`. -/
def dialPools : List (Fin count) → PoolsLoop count Engine Unit
  | [] => return
  | i :: rest => do
      if (← get).Due i then
        dial i
      else
        dialPools rest

/-- `executor::on_heartbeat`. -/
def poolsHeartbeat : PoolsLoop count Engine Unit := do
  let (connectedPools, connectingPools) ← countPools (List.finRange count) 0 0
  if connectedPools = 0 ∧ connectingPools = 0 then
    dialPools (List.finRange count)
  else
    return

/-! ## One pool -/

/-- What the only pool of a vector sees of an end. -/
def seen : Except (Crash 1) (Unit × Pools 1 Engine) → Except Fault (Unit × Sys Engine)
  | .error crash => .error crash.failure
  | .ok (value, next) => .ok (value, next.view 0)

theorem seen_onPool (program : Env Engine → Loop Engine Unit) (pools : Pools 1 Engine) :
    seen ((onPool 0 program).run pools) =
      (program (pools.members 0).env).run (pools.view 0) := by
  rw [run_onPool]
  cases (program (pools.members 0).env).run (pools.view 0) with
  | error failure => rfl
  | ok ended => simp [seen]

/-- Over the one pool that `run` creates, the heartbeat is the one of the event loop. -/
theorem seen_poolsHeartbeat (pools : Pools 1 Engine) :
    seen (poolsHeartbeat.run pools) =
      (onHeartbeat (pools.members 0).env).run (pools.view 0) := by
  have passes : poolsHeartbeat.run pools = (countPools [0] 0 0 >>= fun counted =>
      if counted.1 = 0 ∧ counted.2 = 0 then dialPools [0] else pure ()).run pools := rfl
  have counts : (countPools [0] 0 0).run pools =
      (if pools.state 0 = .connected then onPool 0 checkCallTimeouts >>= fun _ => pure (1, 0)
        else if pools.state 0 = .connecting then pure (0, 1) else pure (0, 0)).run pools := rfl
  have single : (onHeartbeat (pools.members 0).env).run (pools.view 0) =
      (if pools.state 0 = .connected then
        checkCallTimeouts (pools.members 0).env >>= fun _ =>
          if pools.state 0 ≠ .connected ∧ pools.state 0 ≠ .connecting then dialWhenIdle
          else pure ()
      else
        if pools.state 0 ≠ .connected ∧ pools.state 0 ≠ .connecting then dialWhenIdle
        else pure ()).run (pools.view 0) := rfl
  cases state : pools.state 0 with
  | connected =>
      have checks : poolsHeartbeat.run pools = (onPool 0 checkCallTimeouts).run pools := by
        rw [passes, StateT.run_bind, counts, if_pos state, StateT.run_bind]
        cases (onPool 0 checkCallTimeouts).run pools with
        | error crash => rfl
        | ok ended => rfl
      rw [checks, seen_onPool]
      exact (heartbeat_connected (pools.members 0).env state).symm
  | connecting =>
      rw [passes, StateT.run_bind, counts, single, state]
      rfl
  | hasJob =>
      have waits : ¬pools.Due 0 := fun due => by
        rw [Pools.Due, state] at due
        exact absurd due.1 (by decide)
      have passed : poolsHeartbeat.run pools =
          (if pools.Due 0 then dial 0 else pure ()).run pools := by
        rw [passes, StateT.run_bind, counts, state]
        rfl
      rw [passed, if_neg waits]
      exact (heartbeat_hasJob (pools.members 0).env state).symm
  | idle =>
      have passed : poolsHeartbeat.run pools =
          (if pools.Due 0 then dial 0 else pure ()).run pools := by
        rw [passes, StateT.run_bind, counts, state]
        rfl
      have alone : (onHeartbeat (pools.members 0).env).run (pools.view 0) =
          (if pools.Due 0 then poolDoConnect else pure ()).run (pools.view 0) := by
        rw [single, state]
        rfl
      rw [passed, alone]
      split
      · exact seen_onPool (fun _ => poolDoConnect)
          { pools with dials := pools.dialOf 0 :: pools.dials }
      · rfl

/-! ## The machine -/

inductive PoolsEvent (count : Nat) where
  | heartbeat
  | pool (i : Fin count) (event : Event)

/-- An event with the clocks and the answers of libuv on the stream of each pool. -/
structure PoolsInput (count : Nat) where
  event : PoolsEvent count
  now : Int
  nowSeconds : Int
  uninitialised : UInt32
  acceptsResolve : Fin count → Bool
  acceptsConnect : Fin count → Bool
  acceptsShutdown : Fin count → Bool
  acceptsWrite : Fin count → Fin 4 → Bool

def Pools.answering (pools : Pools count Engine) (input : PoolsInput count) :
    Pools count Engine :=
  { pools with
    members := fun i =>
      { pools.members i with
        uv :=
          { (pools.members i).uv with
            acceptsResolve := input.acceptsResolve i
            acceptsConnect := input.acceptsConnect i
            acceptsShutdown := input.acceptsShutdown i
            acceptsWrite := input.acceptsWrite i } }
    now := input.now
    nowSeconds := input.nowSeconds
    uninitialised := input.uninitialised }

/-- The heartbeat is the executor's, and a share that was found goes to the first
pool. -/
def PoolsEvent.Enabled (pools : Pools count Engine) : PoolsEvent count → Prop
  | .heartbeat => True
  | .pool _ .heartbeat => False
  | .pool i (.foundResult _) => i.val = 0
  | .pool i event => EventLoop.Enabled (pools.view i) event

instance (pools : Pools count Engine) (event : PoolsEvent count) :
    Decidable (event.Enabled pools) := by
  unfold PoolsEvent.Enabled
  split <;> infer_instance

def poolsCallback : PoolsEvent count → PoolsLoop count Engine Unit
  | .heartbeat => poolsHeartbeat
  | .pool i event => onPool i fun env => callback env event

def poolsStep (pools : Pools count Engine) (input : PoolsInput count) :
    Option (Pools count Engine) :=
  if input.event.Enabled pools then
    match (poolsCallback input.event).run (pools.answering input) with
    | .error _ => none
    | .ok (_, next) => some next
  else none

/-- Every pool is as its constructor leaves it, and none was dialled. -/
def Pools.Initial (pools : Pools count Engine) : Prop :=
  (∀ i, EventLoop.Initial (pools.view i)) ∧ pools.dials = []

def poolsMachine (count : Nat) (Engine : Type) : Machine (Pools count Engine) (PoolsInput count) :=
  .ofPartial Pools.Initial poolsStep

/-! ## Which pool may be dialled -/

/-- No pool is connecting, connected or working on a job, and the pool that is dialled has
waited for more than ten seconds. -/
structure Dial.Rightful (dial : Dial count) : Prop where
  overdue : dial.elapsed > 10000
  alone : ∀ i, dial.states i = .idle

/-- The calls of `do_connect` made when a program ends, normally or not. -/
def dialsAfter : Except (Crash count) (Unit × Pools count Engine) → List (Dial count)
  | .error crash => crash.dials
  | .ok (_, next) => next.dials

/-- A heartbeat calls `do_connect` on no pool, or on one pool that may be dialled. -/
def DialsRightly (pools : Pools count Engine) : Prop :=
  dialsAfter (poolsHeartbeat.run pools) = pools.dials ∨
    ∃ i, dialsAfter (poolsHeartbeat.run pools) = pools.dialOf i :: pools.dials ∧
      (pools.dialOf i).Rightful

/-! ## First pass -/

/-- A program on one pool makes no call of `do_connect` on the vector. -/
theorem onPool_dials {α : Type} (i : Fin count) (program : Env Engine → Loop Engine α)
    (pools : Pools count Engine) :
    Ensures (onPool i program) pools (fun _ next => next.dials = pools.dials)
      fun crash => crash.dials = pools.dials := by
  unfold Ensures
  rw [run_onPool]
  cases (program (pools.members i).env).run (pools.view i) with
  | error failure => rfl
  | ok ended => rfl

theorem countPools_dials (indices : List (Fin count)) (connectedPools connectingPools : Nat)
    (pools : Pools count Engine) :
    Ensures (countPools indices connectedPools connectingPools) pools
      (fun counted next => next.dials = pools.dials ∧ connectedPools ≤ counted.1)
      fun crash => crash.dials = pools.dials := by
  induction indices generalizing connectedPools connectingPools pools with
  | nil => exact ⟨rfl, Nat.le_refl _⟩
  | cons i rest inductionHypothesis =>
      unfold countPools
      simp only [ensures_bind, ensures_get, ensures_ite]
      refine ⟨fun _ => ?_, fun _ => ⟨fun _ => inductionHypothesis _ _ pools,
        fun _ => inductionHypothesis _ _ pools⟩⟩
      refine (onPool_dials i checkCallTimeouts pools).imp ?_ fun _ same => same
      intro _ next same
      refine (inductionHypothesis (connectedPools + 1) connectingPools next).imp ?_ ?_
      · rintro counted last ⟨still, counts⟩
        exact ⟨still.trans same, by omega⟩
      · exact fun crash still => still.trans same

/-- A connected pool is counted: the pools in front of it are left as they are. -/
theorem countPools_connected {indices : List (Fin count)} {connectedPools connectingPools : Nat}
    {pools : Pools count Engine} (connected : ∃ i ∈ indices, pools.state i = .connected) :
    Ensures (countPools indices connectedPools connectingPools) pools
      (fun counted _ => connectedPools < counted.1) fun _ => True := by
  induction indices generalizing connectedPools connectingPools with
  | nil => simp at connected
  | cons i rest inductionHypothesis =>
      unfold countPools
      simp only [ensures_bind, ensures_get, ensures_ite]
      refine ⟨fun _ => ?_, fun other => ?_⟩
      · refine (onPool_dials i checkCallTimeouts pools).imp ?_ fun _ _ => trivial
        intro _ next _
        exact (countPools_dials rest (connectedPools + 1) connectingPools next).imp
          (fun counted _ ended => ended.2) fun _ _ => trivial
      · have later : ∃ i ∈ rest, pools.state i = .connected := by
          obtain ⟨j, member, found⟩ := connected
          rcases List.mem_cons.mp member with rfl | member
          · exact absurd found other
          · exact ⟨j, member, found⟩
        exact ⟨fun _ => inductionHypothesis later, fun _ => inductionHypothesis later⟩

/-- Without a connected pool the pass only counts. -/
theorem countPools_run {indices : List (Fin count)} {connectedPools connectingPools : Nat}
    {pools : Pools count Engine} (none : ∀ i ∈ indices, pools.state i ≠ .connected) :
    (countPools indices connectedPools connectingPools).run pools =
      .ok ((connectedPools,
        connectingPools + indices.countP fun i => pools.state i = .connecting), pools) := by
  induction indices generalizing connectingPools with
  | nil => rfl
  | cons i rest inductionHypothesis =>
      have head : pools.state i ≠ .connected := none i (by simp)
      have tail : ∀ j ∈ rest, pools.state j ≠ .connected := fun j member =>
        none j (.tail _ member)
      change (if pools.state i = .connected then _ else
        if pools.state i = .connecting then countPools rest connectedPools (connectingPools + 1)
        else countPools rest connectedPools connectingPools).run pools = _
      rw [if_neg head]
      by_cases connecting : pools.state i = .connecting
      · rw [if_pos connecting, inductionHypothesis tail, List.countP_cons_of_pos (by simpa),
          Nat.add_assoc, Nat.add_comm 1]
      · rw [if_neg connecting, inductionHypothesis tail, List.countP_cons_of_neg (by simpa)]

/-! ## Second pass -/

theorem dial_dials (i : Fin count) (pools : Pools count Engine) :
    dialsAfter ((dial i).run pools) = pools.dialOf i :: pools.dials := by
  have dialled := onPool_dials i (fun _ => poolDoConnect)
    { pools with dials := pools.dialOf i :: pools.dials }
  change dialsAfter ((onPool i fun _ => poolDoConnect).run
    { pools with dials := pools.dialOf i :: pools.dials }) = _
  unfold Ensures at dialled
  split at dialled
  · rename_i ended
    rw [ended]
    exact dialled
  · rename_i failed
    rw [failed]
    exact dialled

/-- The pass dials the first pool that is due. -/
theorem dialPools_cases (indices : List (Fin count)) (pools : Pools count Engine) :
    ((∀ i ∈ indices, ¬ pools.Due i) ∧ (dialPools indices).run pools = .ok ((), pools)) ∨
      ∃ i ∈ indices, pools.Due i ∧
        dialsAfter ((dialPools indices).run pools) = pools.dialOf i :: pools.dials := by
  induction indices with
  | nil => exact .inl ⟨by simp, rfl⟩
  | cons i rest inductionHypothesis =>
      have unfolded : (dialPools (i :: rest)).run pools =
          (if pools.Due i then dial i else dialPools rest).run pools := rfl
      by_cases due : pools.Due i
      · refine .inr ⟨i, by simp, due, ?_⟩
        rw [unfolded, if_pos due, dial_dials]
      · rw [unfolded, if_neg due]
        rcases inductionHypothesis with ⟨never, run⟩ | ⟨j, member, due', run⟩
        · refine .inl ⟨?_, run⟩
          intro j member
          rcases List.mem_cons.mp member with rfl | member
          · exact due
          · exact never j member
        · exact .inr ⟨j, .tail _ member, due', run⟩

/-! ## The heartbeat -/

/-- The heartbeat takes no pool for connected or connecting. -/
def Pools.Calm (pools : Pools count Engine) : Prop :=
  ∀ i, pools.state i ≠ .connected ∧ pools.state i ≠ .connecting

theorem poolsHeartbeat_calm {pools : Pools count Engine} (calm : pools.Calm) :
    poolsHeartbeat.run pools = (dialPools (List.finRange count)).run pools := by
  have counted : (countPools (List.finRange count) 0 0).run pools = .ok ((0, 0), pools) := by
    rw [countPools_run fun i _ => (calm i).1, List.countP_eq_zero.mpr]
    intro i _
    simpa using (calm i).2
  have run : poolsHeartbeat.run pools =
      (countPools (List.finRange count) 0 0 >>= fun counted =>
        if counted.1 = 0 ∧ counted.2 = 0 then dialPools (List.finRange count)
        else pure ()).run pools := rfl
  rw [run, StateT.run_bind, counted]
  rfl

/-- Once a pool is connected or connecting, no pool is dialled. -/
theorem poolsHeartbeat_busy {pools : Pools count Engine} (busy : ¬pools.Calm) :
    dialsAfter (poolsHeartbeat.run pools) = pools.dials := by
  have counts : Ensures (countPools (List.finRange count) 0 0) pools
      (fun counted next => next.dials = pools.dials ∧ ¬(counted.1 = 0 ∧ counted.2 = 0))
      fun crash => crash.dials = pools.dials := by
    by_cases connected : ∃ i ∈ List.finRange count, pools.state i = .connected
    · refine ((countPools_dials _ 0 0 pools).and (countPools_connected connected)).imp ?_ ?_
      · rintro counted next ⟨⟨same, -⟩, positive⟩
        exact ⟨same, by omega⟩
      · exact fun crash both => both.1
    · push Not at connected
      obtain ⟨i, connecting⟩ : ∃ i, pools.state i = .connecting := by
        by_contra never
        exact busy fun i => ⟨connected i (List.mem_finRange i), fun here => never ⟨i, here⟩⟩
      have positive : 0 < (List.finRange count).countP fun i => pools.state i = .connecting :=
        List.countP_pos_iff.mpr ⟨i, List.mem_finRange i, by simpa using connecting⟩
      unfold Ensures
      rw [countPools_run connected]
      exact ⟨rfl, by omega⟩
  have ends : Ensures poolsHeartbeat pools (fun _ next => next.dials = pools.dials)
      fun crash => crash.dials = pools.dials := by
    unfold poolsHeartbeat
    rw [ensures_bind]
    refine counts.imp ?_ fun _ same => same
    rintro counted next ⟨same, other⟩
    rw [ensures_ite]
    exact ⟨fun none => absurd none other, fun _ => same⟩
  unfold Ensures at ends
  split at ends
  · rename_i ended
    rw [ended]
    exact ends
  · rename_i failed
    rw [failed]
    exact ends

/-- A pool works on a job while another one is due, and the counters of the heartbeat see
neither. -/
structure Overlooks (pools : Pools count Engine) : Prop where
  calm : pools.Calm
  hasJob : ∃ i, pools.state i = .hasJob
  due : ∃ i, pools.Due i

theorem Pools.Due.rightful {pools : Pools count Engine} {i : Fin count} (due : pools.Due i)
    (calm : pools.Calm) (none : ∀ i, pools.state i ≠ .hasJob) : (pools.dialOf i).Rightful where
  overdue := due.2
  alone := by
    intro j
    change pools.state j = .idle
    cases state : pools.state j with
    | idle => rfl
    | connecting => exact absurd state (calm j).2
    | connected => exact absurd state (calm j).1
    | hasJob => exact absurd state (none j)

theorem dialsRightly_of_not_overlooks {pools : Pools count Engine}
    (sees : ¬Overlooks pools) : DialsRightly pools := by
  by_cases calm : pools.Calm
  · unfold DialsRightly
    rw [poolsHeartbeat_calm calm]
    rcases dialPools_cases (List.finRange count) pools with ⟨-, run⟩ | ⟨i, -, due, dialled⟩
    · rw [run]
      exact .inl rfl
    · have none : ∀ i, pools.state i ≠ .hasJob := fun j hasJob =>
        sees ⟨calm, ⟨j, hasJob⟩, ⟨i, due⟩⟩
      exact .inr ⟨i, dialled, due.rightful calm none⟩
  · exact .inl (poolsHeartbeat_busy calm)

theorem not_dialsRightly_of_overlooks {pools : Pools count Engine}
    (overlooks : Overlooks pools) : ¬DialsRightly pools := by
  obtain ⟨calm, ⟨worker, hasJob⟩, waiting, waits⟩ := overlooks
  unfold DialsRightly
  rw [poolsHeartbeat_calm calm]
  rcases dialPools_cases (List.finRange count) pools with ⟨never, -⟩ | ⟨i, -, -, dialled⟩
  · exact absurd waits (never waiting (List.mem_finRange waiting))
  · rw [dialled]
    rintro (same | ⟨j, -, rightful⟩)
    · exact List.cons_ne_self _ _ same
    · have alone : pools.state worker = .idle := rightful.alone worker
      rw [hasJob] at alone
      cases alone

theorem dialsRightly_iff (pools : Pools count Engine) :
    DialsRightly pools ↔ ¬Overlooks pools :=
  ⟨fun rightly overlooks => not_dialsRightly_of_overlooks overlooks rightly,
    dialsRightly_of_not_overlooks⟩

/-- Nothing is overlooked with the one pool that `run` creates. -/
theorem not_overlooks_one (pools : Pools 1 Engine) : ¬Overlooks pools := by
  rintro ⟨-, ⟨i, hasJob⟩, j, idle, -⟩
  rw [Subsingleton.elim j i, hasJob] at idle
  cases idle

/-! ## Runs -/

/-- What a run asks of its heartbeats. -/
def Overseen (pools : Pools count Engine) (input : PoolsInput count) : Prop :=
  match input.event with
  | .heartbeat => ¬Overlooks (pools.answering input)
  | .pool _ _ => True

instance (pools : Pools count Engine) : Decidable pools.Calm :=
  inferInstanceAs (Decidable (∀ _, _))

instance (pools : Pools count Engine) : Decidable (Overlooks pools) :=
  decidable_of_iff (pools.Calm ∧ (∃ i, pools.state i = .hasJob) ∧ ∃ i, pools.Due i)
    ⟨fun ⟨calm, hasJob, due⟩ => ⟨calm, hasJob, due⟩,
      fun overlooks => ⟨overlooks.calm, overlooks.hasJob, overlooks.due⟩⟩

instance (pools : Pools count Engine) (input : PoolsInput count) :
    Decidable (Overseen pools input) := by
  unfold Overseen
  split <;> infer_instance

/-- One step of the loop makes no call of `do_connect`, or one that may be made. -/
theorem poolsStep_dials {pools next : Pools count Engine} {input : PoolsInput count}
    (stepped : poolsStep pools input = some next) (overseen : Overseen pools input) :
    next.dials = pools.dials ∨ ∃ dial : Dial count, next.dials = dial :: pools.dials ∧
      dial.Rightful := by
  unfold poolsStep at stepped
  split at stepped
  case isFalse => cases stepped
  split at stepped
  case h_1 => cases stepped
  case h_2 ended =>
      cases stepped
      cases event : input.event with
      | heartbeat =>
          rw [event] at ended
          rw [Overseen, event] at overseen
          have rightly := dialsRightly_of_not_overlooks overseen
          unfold DialsRightly at rightly
          rw [show poolsHeartbeat.run (pools.answering input) = _ from ended] at rightly
          exact rightly.imp id fun ⟨i, dialled, rightful⟩ => ⟨_, dialled, rightful⟩
      | pool i event' =>
          rw [event] at ended
          exact .inl ((onPool_dials i (fun env => callback env event')
            (pools.answering input)).of_run ended)

/-- In every state of the vector, a heartbeat dials rightly exactly if it does not overlook
a pool with a job; and in every run that oversees its pools, no pool is dialled while
another one is anything but idle. -/
theorem pools_dialled_rightly :
    (∀ pools : Pools count Engine, DialsRightly pools ↔ ¬Overlooks pools) ∧
      ∀ pools : Pools count Engine, (poolsMachine count Engine).ReachableWhen
          (fun before input _ => Overseen before input) pools →
        ∀ dial ∈ pools.dials, dial.Rightful := by
  refine ⟨dialsRightly_iff, fun pools reachable => ?_⟩
  refine @Machine.ReachableWhen.invariant _ _ _ _
    (fun pools => ∀ dial ∈ pools.dials, dial.Rightful) ?_ ?_ _ reachable
  · rintro start ⟨-, none⟩
    simp [none]
  · intro state input next _ rightful stepped overseen
    rcases poolsStep_dials stepped overseen with same | ⟨dial, dialled, right⟩
    · rwa [same]
    · rw [dialled]
      exact List.forall_mem_cons.mpr ⟨right, rightful⟩

/-! ## Two pools -/

def Pools.start (count : Nat) (env : Env Unit) : Pools count Unit where
  members := fun _ =>
    { env := env, pool := Sys.start.app.pool, net := Sys.start.net, tls := Sys.start.tls,
      uv := Sys.start.uv }
  executor := Sys.start.app.executor
  now := 0
  nowSeconds := 0
  uninitialised := 0
  log := []
  dials := []

theorem Pools.start_initial (count : Nat) (env : Env Unit) : (Pools.start count env).Initial :=
  ⟨fun _ => { Sys.start_initial with }, rfl⟩

/-- An event at a time in milliseconds, with every request accepted. -/
def PoolsEvent.at (event : PoolsEvent count) (now : Int) : PoolsInput count where
  event := event
  now := now
  nowSeconds := now / 1000
  uninitialised := 0
  acceptsResolve := fun _ => true
  acceptsConnect := fun _ => true
  acceptsShutdown := fun _ => true
  acceptsWrite := fun _ _ => true

/-- The first of two pools is dialled and sends the sample job. -/
def twoPoolsSession : List (PoolsInput 2) :=
  [PoolsEvent.heartbeat.at 20000,
    (PoolsEvent.pool 0 (.dnsResolved 0 [⟨.inet, []⟩] 0)).at 20010,
    (PoolsEvent.pool 0 (.connected 0)).at 20020,
    (PoolsEvent.pool 0 (.written firstSlot 0)).at 20025,
    (PoolsEvent.pool 0 (.read (JobMessage.sample.text ++ [10]))).at 20030]

theorem pools_dialled_rightly_twoPools :
    ∃ pools, (poolsMachine 2 Unit).Reachable pools ∧ pools.dials ≠ [] ∧
      ∀ dial ∈ pools.dials, dial.Rightful := by
  have executed := Machine.execute_reachableWhen (Pools.start_initial 2 .sample) poolsStep
    Overseen twoPoolsSession (fun pools => pools.dials.length = 1) (by decide +kernel)
  generalize Machine.execute _ _ _ = pools at executed
  obtain ⟨reachable, once⟩ := executed
  refine ⟨pools, reachable.reachable, fun none => ?_, pools_dialled_rightly.2 pools reachable⟩
  rw [none] at once
  cases once

/-- The next heartbeat dials the second pool. -/
theorem second_pool_dialled :
    ∃ pools, (poolsMachine 2 Unit).Reachable pools ∧ pools.state 0 = .hasJob ∧
      ¬DialsRightly (pools.answering (PoolsEvent.heartbeat.at 21000)) := by
  have executed := Machine.execute_reachable (Pools.start_initial 2 .sample) poolsStep
    twoPoolsSession (fun pools => pools.state 0 = .hasJob ∧ pools.state 1 = .idle ∧
      (pools.members 1).pool.lastConnectAttempt = 0) (by decide +kernel)
  generalize Machine.execute _ _ _ = pools at executed
  obtain ⟨reachable, hasJob, idle, never⟩ := executed
  refine ⟨pools, reachable, hasJob, not_dialsRightly_of_overlooks ⟨?_, ⟨0, hasJob⟩, 1, idle, ?_⟩⟩
  · rw [Pools.Calm, Fin.forall_fin_two]
    change (pools.state 0 ≠ .connected ∧ pools.state 0 ≠ .connecting) ∧
      (pools.state 1 ≠ .connected ∧ pools.state 1 ≠ .connecting)
    rw [hasJob, idle]
    decide
  · change (21000 : Int) - (pools.members 1).pool.lastConnectAttempt > 10000
    rw [never]
    decide

end EpicMiner.EventLoop
