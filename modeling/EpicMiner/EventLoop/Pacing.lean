import EpicMiner.EventLoop.Matching
import EpicMiner.EventLoop.Pools

/-!
Owns the pace at which pools are dialled. The time of the last attempt is set by
`do_connect` and looked at by the heartbeat, and no other function touches it; so it is the
time of the last attempt in every run, and attempts keep their distance.
-/

namespace EpicMiner.EventLoop

open EpicMiner.Library
open EpicMiner.Library.Program
open EpicMiner.Data

variable {Engine : Type} {count : Nat}

/-! ## Callbacks that do not dial -/

/-- The time of the last attempt is left alone, and the clock as the callback reads it. -/
def KeepsAttempt (app next : App) : Prop :=
  next.pool.lastConnectAttempt = app.pool.lastConnectAttempt ∧ next.now = app.now

def attemptKept : Behaviour Fault (Sys Engine) where
  Change := fun sys next => KeepsAttempt sys.app next.app
  Fault := fun _ _ => True
  refl := fun _ => ⟨rfl, rfl⟩
  trans := fun first second => ⟨second.1.trans first.1, second.2.trans first.2⟩
  fault_trans := fun _ _ => trivial

theorem JobOutcome.keepsAttempt {config : Config} {param : Value} {app next : App}
    {accepted : Bool} (outcome : JobOutcome config param app accepted next) :
    KeepsAttempt app next := by
  cases outcome <;> exact ⟨rfl, rfl⟩

theorem Processed.keepsAttempt {config : Config} {app next : App} {message : Message}
    {accepted : Bool} (processed : Processed config app message accepted next) :
    KeepsAttempt app next := by
  cases processed with
  | job outcome => exact outcome.keepsAttempt
  | loggedIn _ _ _ outcome => exact outcome.keepsAttempt
  | @shareReplied callId outcome rtt _ _ => cases outcome <;> exact ⟨rfl, rfl⟩
  | _ => exact ⟨rfl, rfl⟩

theorem attemptKept_onSocket (env : Env Engine) : OnSocket env attemptKept where
  fault := fun _ _ _ => trivial
  sendIdle := fun _ _ _ _ => trivial
  shutdownIdle := fun _ _ _ => trivial
  logError := fun _ _ => ⟨rfl, rfl⟩
  shutdownCalled := fun _ => ⟨rfl, rfl⟩
  shutdownStarted := fun _ _ _ => ⟨rfl, rfl⟩
  jobDropped := fun _ _ => ⟨rfl, rfl⟩
  acquire := fun _ _ _ => ⟨rfl, rfl⟩
  fill := fun _ _ _ _ => ⟨rfl, rfl⟩
  handOver := fun _ _ _ _ _ => ⟨rfl, rfl⟩
  engine := fun _ _ => ⟨rfl, rfl⟩
  received := fun _ _ _ => ⟨rfl, rfl⟩
  plaintext := fun _ _ _ => ⟨rfl, rfl⟩
  document := fun _ _ _ => Ends.processed (fun _ => trivial)
    fun _ _ processed => processed.keepsAttempt
  handshaken := fun _ _ => ⟨rfl, rfl⟩
  welcomed := fun _ _ _ => ⟨rfl, rfl⟩
  loginMade := fun _ _ => ⟨rfl, rfl⟩
  session := fun _ _ _ => ⟨rfl, rfl⟩
  reads := fun _ _ => ⟨rfl, rfl⟩

/-- Of all callbacks only the heartbeat dials. -/
theorem callback_attemptKept (env : Env Engine) (event : Event) (other : event ≠ .heartbeat)
    (sys : Sys Engine) (attached : Attached env sys) (enabled : Enabled sys event) :
    attemptKept.Ends (callback env event) sys fun _ _ => True := by
  have onSocket := attemptKept_onSocket env
  have same : ∀ {state next : Sys Engine}, next.app = state.app →
      attemptKept.Change state next := by
    intro state next app
    change KeepsAttempt state.app next.app
    rw [app]
    exact ⟨rfl, rfl⟩
  have failed : ∀ (err : Bytes) (state : Sys Engine), Attached env state →
      attemptKept.Ends (netOnError env (doShutdown env) err) state fun _ _ => True :=
    fun err state attached => (onSocket.failed err state attached).trivial
  cases event with
  | heartbeat => exact absurd rfl other
  | read chunk => exact (onSocket.onSocketReadSt chunk sys attached enabled.1).trivial
  | readError error => exact (onSocket.onSocketError error sys attached).trivial
  | written idx status =>
      exact (onSocket.onSocketWriteSt idx status sys (fun _ _ => trivial) (same rfl)
        (fun _ _ => same rfl) attached).trivial
  | shutDown => exact ensures_onShutdownSt.mpr ⟨same rfl, trivial⟩
  | closed => exact (ensures_onSocketClosed env).mpr ⟨⟨rfl, rfl⟩, trivial⟩
  | foundResult res =>
      exact (onSocket.doSendResult res sys (fun _ => ⟨rfl, rfl⟩) attached).trivial
  | dnsResolved status res rand =>
      have freed : attemptKept.Within
          (setNet fun net => { net with rResolv := false } : Loop Engine Unit) :=
        fun _ => ⟨same rfl, trivial⟩
      have answered : Attached env { sys with uv := { sys.uv with dns := false } } :=
        { attached with }
      have resolved : attemptKept.Ends (onDnsResolved env res rand)
          { sys with uv := { sys.uv with dns := false } } fun _ _ => True := by
        unfold onDnsResolved
        split
        · exact failed _ _ answered
        · exact ensures_openSocket.mpr
            ⟨fun _ => trivial, fun _ _ => trivial, fun _ _ => ⟨same rfl, trivial⟩⟩
      have begun : attemptKept.Change sys { sys with uv := { sys.uv with dns := false } } :=
        same rfl
      apply Behaviour.Ends.step rfl begun
      exact Behaviour.Ends.ite (fun _ => resolved.bind fun _ next _ => freed next)
        fun _ => (failed _ _ answered).bind fun _ next _ => freed next
  | connected status =>
      have freed : attemptKept.Within
          (setNet fun net => { net with rConn := false } : Loop Engine Unit) :=
        fun _ => ⟨same rfl, trivial⟩
      obtain ⟨answered, greets⟩ := Attached.answered attached enabled (decide (status = 0))
      have begun : attemptKept.Change sys
          { sys with uv := { sys.uv with conn := false, connected := decide (status = 0) } } :=
        same rfl
      apply Behaviour.Ends.step rfl begun
      refine Behaviour.Ends.ite (fun ok => ?_) fun _ =>
        (failed _ _ answered).bind fun _ next _ => freed next
      exact (onSocket.onConnect _ (greets (decide_eq_true ok))).bind fun _ next _ => freed next

/-- A callback keeps the attachment, too. -/
theorem callback_undialled (env : Env Engine) (event : Event) (other : event ≠ .heartbeat)
    (sys : Sys Engine) (attached : Attached env sys) (enabled : Enabled sys event) :
    Ensures (callback env event) sys
      (fun _ next => KeepsAttempt sys.app next.app ∧ Attached env next) fun _ => True := by
  have keeps := callback_attemptKept env event other sys attached enabled
  have stays := (anything_turn env).callback event sys attached enabled fun _ _ _ => trivial
  exact (Ensures.and keeps stays).imp (fun _ _ both => ⟨both.1.1, both.2.2⟩) fun _ _ => trivial

/-! ## Pools side by side -/

namespace Pools

/-- The time of the last attempt on a pool. -/
def attempted (pools : Pools count Engine) (i : Fin count) : Int :=
  (pools.members i).pool.lastConnectAttempt

def Attached (pools : Pools count Engine) : Prop :=
  ∀ i, EventLoop.Attached (pools.members i).env (pools.view i)

/-- Whatever happened to the pools, none of them was dialled. -/
structure Undialled (pools next : Pools count Engine) : Prop where
  attached : next.Attached
  attempted : next.attempted = pools.attempted
  dials : next.dials = pools.dials
  now : next.now = pools.now

theorem Undialled.trans {pools next last : Pools count Engine} (first : Undialled pools next)
    (second : Undialled next last) : Undialled pools last where
  attached := second.attached
  attempted := second.attempted.trans first.attempted
  dials := second.dials.trans first.dials
  now := second.now.trans first.now

end Pools

/-- What libuv and the connection are to a pool does not depend on the other ones. -/
theorem Attached.of_view {env : Env Engine} {sys next : Sys Engine}
    (attached : Attached env sys) (pool : next.app.pool = sys.app.pool) (net : next.net = sys.net)
    (tls : next.tls = sys.tls) (uv : next.uv = sys.uv) : Attached env next := by
  obtain ⟨app, _, _, _⟩ := sys
  obtain ⟨app', _, _, _⟩ := next
  cases net
  cases tls
  cases uv
  refine { attached with coherent := fun hasJob => ?_ }
  exact attached.coherent (pool ▸ hasJob)

theorem Pools.Attached.put {pools : Pools count Engine} (attached : pools.Attached) (i : Fin count)
    {sys : Sys Engine} (one : EventLoop.Attached (pools.members i).env sys) :
    (pools.put i sys).Attached := by
  intro j
  by_cases same : j = i
  · subst same
    rw [view_put]
    simpa [Pools.put] using one
  · have member : (pools.put i sys).members j = pools.members j := by simp [Pools.put, same]
    rw [member]
    refine (attached j).of_view ?_ ?_ ?_ ?_ <;> simp [Pools.view, member]

theorem Pools.attempted_put (pools : Pools count Engine) (i : Fin count) (sys : Sys Engine) :
    (pools.put i sys).attempted =
      Function.update pools.attempted i sys.app.pool.lastConnectAttempt := by
  funext j
  by_cases same : j = i
  · subst same
    simp [attempted, put]
  · simp [attempted, put, same]

theorem ensures_onPool {α : Type} {i : Fin count} {program : Env Engine → Loop Engine α}
    {pools : Pools count Engine} {post : α → Pools count Engine → Prop}
    {fault : Crash count → Prop} :
    Ensures (onPool i program) pools post fault ↔
      Ensures (program (pools.members i).env) (pools.view i)
        (fun value sys => post value (pools.put i sys))
        fun failure => fault ⟨failure, pools.dials⟩ := by
  unfold Ensures
  rw [run_onPool]
  cases (program (pools.members i).env).run (pools.view i) with
  | error failure => rfl
  | ok outcome => rfl

theorem undialled_onPool {program : Env Engine → Loop Engine Unit}
    {pools : Pools count Engine} (attached : pools.Attached) {i : Fin count}
    (ensures : Ensures (program (pools.members i).env) (pools.view i)
      (fun _ next => KeepsAttempt (pools.view i).app next.app ∧
        Attached (pools.members i).env next) fun _ => True) :
    Ensures (onPool i program) pools (fun _ next => pools.Undialled next) fun _ => True := by
  refine ensures_onPool.mpr (ensures.mono ?_)
  rintro _ next ⟨⟨attempt, now⟩, one⟩
  refine ⟨attached.put i one, ?_, rfl, now⟩
  rw [Pools.attempted_put, attempt]
  exact Function.update_eq_self i _

/-! ## The heartbeat -/

/-- The first pass does not dial. -/
theorem undialled_countPools (indices : List (Fin count)) (connectedPools connectingPools : Nat)
    (pools : Pools count Engine) (attached : pools.Attached) :
    Ensures (countPools indices connectedPools connectingPools) pools
      (fun _ next => pools.Undialled next) fun _ => True := by
  induction indices generalizing connectedPools connectingPools pools with
  | nil => exact ⟨attached, rfl, rfl, rfl⟩
  | cons i rest inductionHypothesis =>
      unfold countPools
      simp only [ensures_bind, ensures_get, ensures_ite]
      refine ⟨fun _ => ?_, fun _ => ⟨fun _ => inductionHypothesis _ _ pools attached,
        fun _ => inductionHypothesis _ _ pools attached⟩⟩
      have checked : Ensures (checkCallTimeouts (pools.members i).env) (pools.view i)
          (fun _ next => KeepsAttempt (pools.view i).app next.app ∧
            Attached (pools.members i).env next) fun _ => True :=
        (attemptKept_onSocket _).checkCallTimeouts _ (attached i)
      refine (undialled_onPool attached checked).imp (fun _ next undialled => ?_) fun _ _ => trivial
      refine (inductionHypothesis (connectedPools + 1) connectingPools next
        undialled.attached).imp ?_ fun _ => id
      exact fun _ last also => undialled.trans also

/-- An attempt is made on one pool, which was due. -/
structure Pools.DialsOne (pools : Pools count Engine) (i : Fin count)
    (next : Pools count Engine) : Prop where
  due : pools.Due i
  attached : next.Attached
  attempted : next.attempted = Function.update pools.attempted i pools.now
  dials : next.dials = pools.dialOf i :: pools.dials

theorem dialsOne_dial {pools : Pools count Engine} (attached : pools.Attached) {i : Fin count}
    (due : pools.Due i) :
    Ensures (dial i) pools (fun _ next => pools.DialsOne i next) fun _ => True := by
  have one : EventLoop.Attached (pools.members i).env (pools.view i).dialled :=
    { attached i with coherent := .of_jobless (by simp [Sys.dialled, App.setPool, App.record]) }
  unfold dial
  rw [ensures_bind, ensures_modify, ensures_onPool, ensures_poolDoConnect]
  refine ⟨fun _ => trivial, fun _ => ⟨due, attached.put i one, ?_, rfl⟩⟩
  exact Pools.attempted_put pools i _

theorem dialsOne_dialPools (indices : List (Fin count)) {pools : Pools count Engine}
    (attached : pools.Attached) :
    Ensures (dialPools indices) pools
      (fun _ next => pools.Undialled next ∨ ∃ i, pools.DialsOne i next) fun _ => True := by
  induction indices with
  | nil => exact .inl ⟨attached, rfl, rfl, rfl⟩
  | cons i rest inductionHypothesis =>
      unfold dialPools
      rw [ensures_bind, ensures_get, ensures_ite]
      refine ⟨fun due => ?_, fun _ => inductionHypothesis⟩
      exact (dialsOne_dial attached due).mono fun _ _ dialled => .inr ⟨i, dialled⟩

/-- A step dials no pool, or one that was due. -/
theorem poolsStep_cases {pools next : Pools count Engine} {input : PoolsInput count}
    (attached : pools.Attached) (stepped : poolsStep pools input = some next) :
    next.Attached ∧ (next.dials = pools.dials ∧ next.attempted = pools.attempted ∨
      ∃ i dial, next.dials = dial :: pools.dials ∧ dial.index = i ∧
        input.now - pools.attempted i > 10000 ∧
        next.attempted = Function.update pools.attempted i input.now) := by
  have answering : (pools.answering input).Attached := fun i =>
    { attached i with }
  unfold poolsStep at stepped
  split at stepped
  case isFalse => cases stepped
  rename_i enabled
  split at stepped
  case h_1 => cases stepped
  case h_2 ended =>
      cases stepped
      cases event : input.event with
      | heartbeat =>
          rw [event] at ended
          have beats : Ensures poolsHeartbeat (pools.answering input)
              (fun _ next => (pools.answering input).Undialled next ∨
                ∃ middle i, (pools.answering input).Undialled middle ∧ middle.DialsOne i next)
              fun _ => True := by
            unfold poolsHeartbeat
            rw [ensures_bind]
            refine (undialled_countPools _ 0 0 _ answering).mono fun counted middle undialled => ?_
            rw [ensures_ite]
            refine ⟨fun _ => ?_, fun _ => .inl undialled⟩
            refine (dialsOne_dialPools _ undialled.attached).mono fun _ next outcome => ?_
            rcases outcome with also | ⟨i, dialled⟩
            · exact .inl (undialled.trans also)
            · exact .inr ⟨middle, i, undialled, dialled⟩
          rcases beats.of_run ended with undialled | ⟨middle, i, undialled, dialled⟩
          · exact ⟨undialled.attached, .inl ⟨undialled.dials, undialled.attempted⟩⟩
          · refine ⟨dialled.attached, .inr ⟨i, middle.dialOf i, ?_, rfl, ?_, ?_⟩⟩
            · rw [dialled.dials, undialled.dials]
              rfl
            · have due := dialled.due.2
              have same : middle.attempted i = pools.attempted i := congrFun undialled.attempted i
              have now : middle.now = input.now := undialled.now
              rw [now] at due
              rw [← same]
              exact due
            · rw [dialled.attempted, undialled.attempted, undialled.now]
              rfl
      | pool i event' =>
          rw [event] at ended enabled
          have own : event' ≠ .heartbeat ∧ Enabled ((pools.answering input).view i) event' := by
            cases event' with
            | heartbeat => exact enabled.elim
            | foundResult res => exact ⟨by simp, trivial⟩
            | _ => exact ⟨by simp, enabled⟩
          have keeps := callback_undialled _ event' own.1 _ (answering i) own.2
          have runs : Ensures (onPool i fun env => callback env event') (pools.answering input)
              (fun _ next => (pools.answering input).Undialled next) fun _ => True :=
            undialled_onPool answering keeps
          have undialled := runs.of_run ended
          exact ⟨undialled.attached, .inl ⟨undialled.dials, undialled.attempted⟩⟩

/-! ## Runs -/

/-- The pools with the times at which each of them was dialled, latest first. -/
structure PacedPools (count : Nat) (Engine : Type) where
  pools : Pools count Engine
  attempts : Fin count → List Int

namespace PacedPools

/-- The calls of `do_connect` that were made last, at the given time. -/
def timed (now : Int) (newer : List (Dial count)) (attempts : Fin count → List Int) :
    Fin count → List Int := fun i =>
  (newer.filter fun dial => dial.index = i).map (fun _ => now) ++ attempts i

def step (paced : PacedPools count Engine) (input : PoolsInput count) :
    Option (PacedPools count Engine) :=
  (poolsStep paced.pools input).map fun next =>
    { pools := next
      attempts := timed input.now
        (next.dials.take (next.dials.length - paced.pools.dials.length)) paced.attempts }

structure Initial (paced : PacedPools count Engine) : Prop where
  pools : paced.pools.Initial
  never : ∀ i, paced.attempts i = []

def machine (count : Nat) (Engine : Type) :
    Machine (PacedPools count Engine) (PoolsInput count) :=
  .ofPartial Initial step

/-- What `last_connect_attempt` is: the time of the last call of `do_connect`, and zero
before the first. Any two calls keep their distance, and the first keeps it to zero. -/
structure Paced (paced : PacedPools count Engine) : Prop where
  attached : paced.pools.Attached
  last : ∀ i, paced.pools.attempted i = (paced.attempts i).headD 0
  apart : ∀ i, (paced.attempts i).Pairwise fun later earlier => later - earlier > 10000
  late : ∀ i, ∀ attempt ∈ paced.attempts i, attempt > 10000

theorem Paced.step {paced next : PacedPools count Engine} {input : PoolsInput count}
    (holds : paced.Paced) (stepped : paced.step input = some next) : next.Paced := by
  obtain ⟨pools, taken, rfl⟩ := Option.map_eq_some_iff.mp stepped
  obtain ⟨attached, undialled | ⟨i, dial, dials, index, overdue, attempted⟩⟩ :=
    poolsStep_cases holds.attached taken
  · have same : timed input.now (pools.dials.take
        (pools.dials.length - paced.pools.dials.length)) paced.attempts = paced.attempts := by
      funext i
      simp [undialled.1, timed]
    rw [same]
    exact ⟨attached, fun j => (congrFun undialled.2 j).trans (holds.last j), holds.apart,
      holds.late⟩
  · have made : timed input.now (pools.dials.take
        (pools.dials.length - paced.pools.dials.length)) paced.attempts =
          Function.update paced.attempts i (input.now :: paced.attempts i) := by
      funext j
      by_cases same : j = i
      · subst same
        simp [timed, dials, index]
      · simp [timed, dials, index, same, Ne.symm same]
    have last := holds.last i
    have distant : ∀ attempt ∈ paced.attempts i, input.now - attempt > 10000 := by
      have apart := holds.apart i
      cases history : paced.attempts i with
      | nil => simp
      | cons head earlier =>
          rw [history] at last apart
          have overdueHead : input.now - head > 10000 := by simpa [last] using overdue
          intro attempt member
          rcases List.mem_cons.mp member with rfl | member
          · exact overdueHead
          · have before := List.rel_of_pairwise_cons apart member
            omega
    have first : input.now > 10000 := by
      have late := holds.late i
      cases history : paced.attempts i with
      | nil =>
          rw [history] at last
          simpa [last] using overdue
      | cons head earlier =>
          have head := late head (by simp [history])
          have since := distant _ (by rw [history]; exact .head _)
          omega
    rw [made]
    refine ⟨attached, fun j => ?_, fun j => ?_, fun j => ?_⟩ <;> by_cases same : j = i
    · subst same
      simp [attempted]
    · simpa [attempted, same] using holds.last j
    · subst same
      simpa using ⟨distant, holds.apart j⟩
    · simpa [same] using holds.apart j
    · subst same
      simpa using ⟨first, holds.late j⟩
    · simpa [same] using holds.late j

theorem Initial.paced {paced : PacedPools count Engine} (initial : Initial paced) :
    paced.Paced where
  attached := fun i => EventLoop.Initial.attached (initial.pools.1 i)
  last := by
    intro i
    rw [initial.never i]
    exact (initial.pools.1 i).neverDialled
  apart := by simp [initial.never]
  late := by simp [initial.never]

end PacedPools

/-- No pool is dialled more often than every ten seconds: in every run of any number of pools,
whatever happens on their connections, any two calls of `do_connect` on one pool are more than
ten seconds apart on the clock of the heartbeat. -/
theorem pools_dialled_apart (paced : PacedPools count Engine)
    (reachable : (PacedPools.machine count Engine).Reachable paced) (i : Fin count) :
    (paced.attempts i).Pairwise fun later earlier => later - earlier > 10000 := by
  have initially : ∀ start, (PacedPools.machine count Engine).Initial start → start.Paced :=
    fun _ initial => PacedPools.Initial.paced initial
  have holds : paced.Paced := reachable.invariant initially
    fun _ _ _ _ holds stepped _ => PacedPools.Paced.step holds stepped
  exact holds.apart i

/-- The only pool is dialled, fails to connect, and is dialled again. -/
def refusedTwice : List (PoolsInput 1) :=
  [PoolsEvent.heartbeat.at 20000,
    (PoolsEvent.pool ⟨0, Nat.one_pos⟩ (.dnsResolved (-3008) [] 0)).at 20010,
    PoolsEvent.heartbeat.at 21000, PoolsEvent.heartbeat.at 30001]

theorem pools_dialled_apart_refusedTwice :
    ∃ paced : PacedPools 1 Unit, (PacedPools.machine 1 Unit).Reachable paced ∧
      paced.attempts 0 = [30001, 20000] ∧
      (paced.attempts 0).Pairwise fun later earlier => later - earlier > 10000 := by
  have initial : PacedPools.Initial ⟨Pools.start 1 .sample, fun _ => []⟩ :=
    ⟨Pools.start_initial 1 .sample, fun _ => rfl⟩
  have executed := Machine.execute_reachable initial PacedPools.step refusedTwice
    (fun paced => paced.attempts 0 = [30001, 20000]) (by decide +kernel)
  exact ⟨_, executed.1, executed.2, pools_dialled_apart _ executed.1 0⟩

end EpicMiner.EventLoop
