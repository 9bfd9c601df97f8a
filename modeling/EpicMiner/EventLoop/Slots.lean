import EpicMiner.EventLoop.SendCalls

/-!
Owns the two flags of a send slot, `active` and the request in use, over whole
runs. A write that libuv refuses or ends with an error leaves both set, and the
close callback then clears only one of them; without such writes the flags agree
with libuv between any two callbacks.
-/

namespace EpicMiner.EventLoop

open EpicMiner.Library
open EpicMiner.Library.Program
open EpicMiner.Data

variable {Engine : Type}

/-! ## Invariant -/

/-- The request of a free slot is not in use. -/
def FreeSlotsIdle (sys : Sys Engine) : Prop :=
  ∀ idx, (sys.net.sendBufs idx).active = false → (sys.net.sendBufs idx).rSend = false

/-- Free slots are idle, and a request is in use exactly while its callback is to
come. -/
structure SlotsHeld (sys : Sys Engine) : Prop where
  free : FreeSlotsIdle sys
  held : ∀ idx, (sys.net.sendBufs idx).rSend = sys.uv.writes idx

/-- libuv accepts the writes among these entries of the log. -/
def WritesAccepted (accepts : Fin 4 → Bool) (entries : List Effect) : Prop :=
  ∀ idx : Fin 4, ∀ data len accepted, .uvWrite idx data len accepted ∈ entries → accepts idx = true

/-- The entries of the log that a step added. -/
def newEntries (sys next : Sys Engine) : List Effect :=
  next.app.log.take (next.app.log.length - sys.app.log.length)

theorem newEntries_eq {sys next : Sys Engine} {newer : List Effect}
    (log : next.app.log = newer ++ sys.app.log) : newEntries sys next = newer := by
  simp [newEntries, log]

/-- The write whose callback a step runs ended without an error, and the writes
that the step asks for are accepted. -/
structure WritesEndWell (sys : Sys Engine) (input : Input) (next : Sys Engine) : Prop where
  ended : ∀ idx status, input.event = .written idx status → status = 0
  accepted : WritesAccepted input.acceptsWrite (newEntries sys next)

/-! ## Inside a callback -/

/-- How the flags of the slots develop: a free slot stays idle whatever libuv
answers, and the flags stay those of libuv as long as it accepts the writes. -/
structure Holding (sys next : Sys Engine) : Prop where
  accepts : next.uv.acceptsWrite = sys.uv.acceptsWrite
  free : FreeSlotsIdle sys → FreeSlotsIdle next
  held : ∃ newer, next.app.log = newer ++ sys.app.log ∧
    (WritesAccepted sys.uv.acceptsWrite newer → SlotsHeld sys → SlotsHeld next)

namespace Holding

theorem refl (sys : Sys Engine) : Holding sys sys :=
  ⟨rfl, id, [], rfl, fun _ => id⟩

theorem trans {first second third : Sys Engine} (before : Holding first second)
    (after : Holding second third) : Holding first third := by
  obtain ⟨earlier, log, keeps⟩ := before.held
  obtain ⟨later, log', keeps'⟩ := after.held
  refine ⟨after.accepts.trans before.accepts, after.free ∘ before.free, later ++ earlier, ?_, ?_⟩
  · rw [log', log, List.append_assoc]
  · intro accepted held
    rw [before.accepts] at keeps'
    apply keeps'
    · exact fun idx data len flag member => accepted idx data len flag (List.mem_append_left _ member)
    · apply keeps _ held
      exact fun idx data len flag member => accepted idx data len flag (List.mem_append_right _ member)

/-- An update that leaves the flags of every slot alone. -/
theorem of_flags {sys next : Sys Engine} (newer : List Effect)
    (log : next.app.log = newer ++ sys.app.log)
    (uv : next.uv.acceptsWrite = sys.uv.acceptsWrite ∧ next.uv.writes = sys.uv.writes)
    (flags : ∀ idx, (next.net.sendBufs idx).active = (sys.net.sendBufs idx).active ∧
      (next.net.sendBufs idx).rSend = (sys.net.sendBufs idx).rSend) : Holding sys next := by
  have free : FreeSlotsIdle sys → FreeSlotsIdle next := by
    intro idle idx inactive
    rw [(flags idx).1] at inactive
    rw [(flags idx).2]
    exact idle idx inactive
  refine ⟨uv.1, free, newer, log, fun _ holds => ⟨free holds.free, fun idx => ?_⟩⟩
  rw [(flags idx).2, uv.2]
  exact holds.held idx

/-- An update of one slot that leaves its request alone. -/
theorem withSlot (sys : Sys Engine) (idx : Fin 4) (update : SendSt → SendSt)
    (stays : (update (sys.net.sendBufs idx)).active = true)
    (request : (update (sys.net.sendBufs idx)).rSend = (sys.net.sendBufs idx).rSend) :
    Holding sys (sys.withSlot idx update) := by
  have requests : ∀ other, ((sys.withSlot idx update).net.sendBufs other).rSend =
      (sys.net.sendBufs other).rSend := by
    intro other
    by_cases same : other = idx
    · subst same
      simpa [Sys.withSlot] using request
    · simp [Sys.withSlot, same]
  have free : FreeSlotsIdle sys → FreeSlotsIdle (sys.withSlot idx update) := by
    intro idle other inactive
    rw [requests other]
    by_cases same : other = idx
    · subst same
      simp [Sys.withSlot, stays] at inactive
    · exact idle other (by simpa [Sys.withSlot, same] using inactive)
  refine ⟨rfl, free, [], rfl, fun _ holds => ⟨free holds.free, fun other => ?_⟩⟩
  rw [requests other]
  exact holds.held other

theorem handedOver (sys : Sys Engine) (idx : Fin 4) (len : Nat)
    (active : (sys.net.sendBufs idx).active = true) : Holding sys (sys.handedOver idx len) := by
  have elsewhere : ∀ other, other ≠ idx →
      (sys.handedOver idx len).net.sendBufs other = sys.net.sendBufs other := by
    intro other differs
    simp [Sys.handedOver, Sys.withSlot, differs]
  have here : ((sys.handedOver idx len).net.sendBufs idx).active = true ∧
      ((sys.handedOver idx len).net.sendBufs idx).rSend = true := by
    simpa [Sys.handedOver, Sys.withSlot] using active
  have free : FreeSlotsIdle sys → FreeSlotsIdle (sys.handedOver idx len) := by
    intro idle other inactive
    by_cases same : other = idx
    · subst same
      rw [here.1] at inactive
      cases inactive
    · rw [elsewhere other same] at *
      exact idle other inactive
  refine ⟨rfl, free, [_], rfl, fun accepted holds => ⟨free holds.free, fun other => ?_⟩⟩
  by_cases same : other = idx
  · subst same
    rw [here.2]
    simpa [Sys.handedOver] using (accepted other _ _ _ (List.mem_singleton_self _)).symm
  · rw [elsewhere other same]
    simpa [Sys.handedOver, same] using holds.held other

/-- The close callback frees all slots; it comes when libuv holds no write. -/
theorem socketClosed (env : Env Engine) {sys : Sys Engine} (holds : SlotsHeld sys)
    (unwritten : ∀ idx, sys.uv.writes idx = false) : Holding sys (sys.socketClosed env) := by
  have idle : ∀ idx, (sys.net.sendBufs idx).rSend = false :=
    fun idx => (holds.held idx).trans (unwritten idx)
  refine ⟨rfl, fun _ idx _ => idle idx, [_, _, _], rfl, fun _ _ => ⟨fun idx _ => idle idx, ?_⟩⟩
  exact holds.held

end Holding

/-- The behaviour of the code inside a callback towards the slots. -/
def holding : Behaviour Fault (Sys Engine) where
  Change := Holding
  Fault := fun sys failure => FreeSlotsIdle sys → ¬ Sending failure
  refl := Holding.refl
  trans := Holding.trans
  fault_trans := fun change fault idle => fault (change.free idle)

theorem holding_rounds (env : Env Engine) : Rounds env holding where
  fault := fun _ _ harmless _ => harmless.2
  sendIdle := by
    intro sys idx free request idle
    rw [idle idx free] at request
    cases request
  shutdownIdle := fun _ _ _ _ => by decide
  logError := fun _ _ => .of_flags [_] rfl ⟨rfl, rfl⟩ fun _ => ⟨rfl, rfl⟩
  shutdownCalled := fun _ => .of_flags [_] rfl ⟨rfl, rfl⟩ fun _ => ⟨rfl, rfl⟩
  shutdownStarted := fun _ _ _ => .of_flags [_] rfl ⟨rfl, rfl⟩ fun _ => ⟨rfl, rfl⟩
  jobDropped := fun _ _ => .of_flags [_] rfl ⟨rfl, rfl⟩ fun _ => ⟨rfl, rfl⟩
  acquire := fun sys idx _ => .withSlot sys idx _ rfl rfl
  fill := fun sys idx _ active => .withSlot sys idx _ active rfl
  handOver := fun sys idx len active _ => .handedOver sys idx len active
  engine := fun _ _ => .of_flags [] rfl ⟨rfl, rfl⟩ fun _ => ⟨rfl, rfl⟩
  received := fun _ _ _ => .of_flags [] rfl ⟨rfl, rfl⟩ fun _ => ⟨rfl, rfl⟩
  plaintext := fun _ _ _ => .of_flags [] rfl ⟨rfl, rfl⟩ fun _ => ⟨rfl, rfl⟩
  document := by
    intro sys members _
    apply Ends.document
    · exact fun _ fault _ => fault.harmless.2
    · intro app handled
      obtain ⟨newer, log, -⟩ := handled.log
      exact .of_flags (newer ++ [_]) (log.trans (List.append_cons _ _ _)) ⟨rfl, rfl⟩
        fun _ => ⟨rfl, rfl⟩
  handshaken := fun _ _ => .of_flags [] rfl ⟨rfl, rfl⟩ fun _ => ⟨rfl, rfl⟩
  welcomed := fun _ _ _ => .of_flags [] rfl ⟨rfl, rfl⟩ fun _ => ⟨rfl, rfl⟩
  loginMade := fun _ _ => .of_flags [_] rfl ⟨rfl, rfl⟩ fun _ => ⟨rfl, rfl⟩
  session := fun _ _ _ => .of_flags [] rfl ⟨rfl, rfl⟩ fun _ => ⟨rfl, rfl⟩
  reads := fun _ _ => .of_flags [] rfl ⟨rfl, rfl⟩ fun _ => ⟨rfl, rfl⟩
  lifecycle := by
    rintro _ _ (rfl | rfl | rfl | rfl) _ <;> decide
  dialled := fun _ _ => .of_flags [_] rfl ⟨rfl, rfl⟩ fun _ => ⟨rfl, rfl⟩
  resolved := fun _ => .of_flags [] rfl ⟨rfl, rfl⟩ fun _ => ⟨rfl, rfl⟩
  resolvFreed := fun _ => .of_flags [] rfl ⟨rfl, rfl⟩ fun _ => ⟨rfl, rfl⟩
  opened := fun _ _ => .of_flags [] rfl ⟨rfl, rfl⟩ fun _ => ⟨rfl, rfl⟩
  answered := fun _ _ => .of_flags [] rfl ⟨rfl, rfl⟩ fun _ => ⟨rfl, rfl⟩
  connFreed := fun _ => .of_flags [] rfl ⟨rfl, rfl⟩ fun _ => ⟨rfl, rfl⟩
  shutdownEnded := fun _ _ => .of_flags [] rfl ⟨rfl, rfl⟩ fun _ => ⟨rfl, rfl⟩

/-! ## Callbacks -/

/-- The write callback, the only one that ends a request. An error ends it for
libuv alone. -/
theorem onSocketWriteSt_ensures {env : Env Engine} {sys : Sys Engine}
    (attached : Attached env sys) (holds : SlotsHeld sys) {idx : Fin 4} (status : Int)
    (due : sys.uv.writes idx = true) :
    Ensures (onSocketWriteSt env idx status) sys
      (fun _ next => status = 0 → SlotsHeld next) fun failure => ¬ Sending failure := by
  have request : (sys.net.sendBufs idx).rSend = true := (holds.held idx).trans due
  have active : (sys.net.sendBufs idx).active = true := by
    by_contra inactive
    have idle := holds.free idx (by simpa using inactive)
    rw [request] at idle
    cases idle
  unfold onSocketWriteSt
  rw [ensures_bind_of_run rfl, ensures_ite]
  constructor
  · intro ended
    rw [ensures_bind, ensures_get, ensures_ite]
    constructor
    · intro inactive
      rw [show (sys.net.sendBufs idx).active = false from inactive] at active
      cases active
    · intro _ _
      have elsewhere : ∀ other, other ≠ idx →
          Function.update sys.net.sendBufs idx
            { sys.net.sendBufs idx with rSend := false, active := false } other =
          sys.net.sendBufs other := fun other differs => by simp [differs]
      constructor
      · intro other inactive
        by_cases same : other = idx
        · subst same
          simp
        · simpa [same] using holds.free other (by simpa [same] using inactive)
      · intro other
        by_cases same : other = idx
        · subst same
          simp
        · simpa [same] using holds.held other
  · intro failed
    have still : Attached env (sys.writeEnded idx) := { attached with }
    have ends := (holding_rounds env).toOnSocket.onSocketError status _ still
    exact ends.imp (fun _ _ _ ended => absurd ended failed) fun _ fault => fault holds.free

/-- No assert about send slots fails in any callback, and the slots are held as
before unless libuv refuses a write or ends one with an error. -/
theorem callback_holds {env : Env Engine} {sys : Sys Engine} (attached : Attached env sys)
    (holds : SlotsHeld sys) (event : Event) (enabled : Enabled sys event) :
    Ensures (callback env event) sys
      (fun _ next => (∀ idx status, event = .written idx status → status = 0) →
        WritesAccepted sys.uv.acceptsWrite (newEntries sys next) → SlotsHeld next)
      fun failure => ¬ Sending failure := by
  have quiet : (∀ idx status, event ≠ .written idx status) → Ensures (callback env event) sys
      (fun _ next => (∀ idx status, event = .written idx status → status = 0) →
        WritesAccepted sys.uv.acceptsWrite (newEntries sys next) → SlotsHeld next)
      fun failure => ¬ Sending failure := by
    intro other
    have ends := (holding_rounds env).callback event sys attached enabled
      (fun idx status same => absurd same (other idx status))
      (fun _ unwritten => Holding.socketClosed env holds unwritten)
      fun _ _ _ => .of_flags [_, _] rfl ⟨rfl, rfl⟩ fun _ => ⟨rfl, rfl⟩
    refine ends.imp ?_ fun _ fault => fault holds.free
    rintro _ next ⟨change, -⟩ _ accepted
    obtain ⟨newer, log, keeps⟩ := change.held
    rw [newEntries_eq log] at accepted
    exact keeps accepted holds
  cases event with
  | written idx status =>
      apply (onSocketWriteSt_ensures attached holds status enabled).mono
      intro _ next keeps ended _
      exact keeps (ended idx status rfl)
  | _ => exact quiet fun _ _ => nofun

theorem handle_holds {env : Env Engine} {sys : Sys Engine} {input : Input}
    (attached : Attached env sys) (holds : SlotsHeld sys) (enabled : Enabled sys input.event) :
    Ensures (callback env input.event) (sys.answering input)
      (fun _ next => WritesEndWell sys input next → SlotsHeld next)
      fun failure => ¬ Sending failure := by
  have still : Attached env (sys.answering input) := { attached with }
  have held : SlotsHeld (sys.answering input) := ⟨holds.free, holds.held⟩
  apply (callback_holds still held input.event (Enabled.answering enabled)).mono
  intro _ next keeps endsWell
  exact keeps endsWell.ended endsWell.accepted

/-! ## Runs -/

theorem Initial.slotsHeld {sys : Sys Engine} (initial : Initial sys) : SlotsHeld sys := by
  obtain ⟨-, -, -, -, -, -, unwritten⟩ := initial.noCallback
  exact ⟨fun idx _ => initial.sends idx, fun idx => (initial.sends idx).trans (unwritten idx).symm⟩

/-- In every run in which libuv accepts all writes and ends none with an error,
the slots are held in every state, and no assert about them can fail next. -/
theorem send_slots_held (env : Env Engine) {sys : Sys Engine}
    (reachable : (machine env).ReachableWhen WritesEndWell sys) :
    SlotsHeld sys ∧ ∀ input failure, Enabled sys input.event →
      handle env sys input = .error failure → ¬ Sending failure := by
  have held : SlotsHeld sys := by
    apply reachable.invariant (fun start initial => Initial.slotsHeld initial)
    intro before input next reachable holds stepped endsWell
    obtain ⟨enabled, handled⟩ := step_enabled stepped
    have ensures := handle_holds (reachable_attached reachable) holds enabled
    exact ensures.of_run (run_of_handle handled) endsWell
  refine ⟨held, fun input failure enabled failed => ?_⟩
  have ensures := handle_holds (reachable_attached reachable) held enabled
  exact ensures.of_fault (run_of_handle_error failed)

/-! ## Sample runs -/

/-- What an input alone says of the writes of its step. -/
def Input.EndsWell (input : Input) : Prop :=
  (match input.event with
    | .written _ status => status = 0
    | _ => True) ∧ ∀ idx, input.acceptsWrite idx = true

instance (input : Input) : Decidable input.EndsWell :=
  @instDecidableAnd _ _ (by cases input.event <;> infer_instance) (Nat.decidableForallFin _)

theorem Input.EndsWell.step {sys next : Sys Engine} {input : Input} (ends : input.EndsWell) :
    WritesEndWell sys input next where
  ended := by
    intro idx status written
    have ended := ends.1
    rw [written] at ended
    exact ended
  accepted := fun idx _ _ _ _ => ends.2 idx

theorem send_slots_held_sample :
    ∃ sys, (machine .sample).ReachableWhen WritesEndWell sys ∧
      sys.app.pool.state = .hasJob ∧ SlotsHeld sys ∧
        ∀ input failure, Enabled sys input.event →
          handle .sample sys input = .error failure → ¬ Sending failure := by
  have executed := Machine.execute_reachableWhen Sys.start_initial (step .sample)
    (fun _ input => input.EndsWell) burstSession (fun sys => sys.app.pool.state = .hasJob)
    (by decide +kernel)
  generalize Machine.execute _ _ _ = state at executed
  obtain ⟨reachable, hasJob⟩ := executed
  have reachable : (machine .sample).ReachableWhen WritesEndWell state :=
    reachable.mono fun _ _ _ _ ends => ends.step
  exact ⟨state, reachable, hasJob, send_slots_held .sample reachable⟩

/-- The write of the login line ends with an error, the connection is closed and
the pool dials again. -/
def failedWriteSession : List Input :=
  [Event.heartbeat.at 20000, (Event.dnsResolved 0 [⟨.inet, []⟩] 0).at 20010,
    (Event.connected 0).at 20020, (Event.written firstSlot (-32)).at 20030,
    Event.shutDown.at 20040, Event.closed.at 20050, Event.heartbeat.at 40000,
    (Event.dnsResolved 0 [⟨.inet, []⟩] 0).at 40010]

/-- The slot is free again with its request still in use, and the login line of
the new connection fails the assert. -/
theorem failed_write_not_held :
    ∃ sys, (machine .sample).Reachable sys ∧ ¬ SlotsHeld sys ∧
      Enabled sys (Event.connected 0) ∧
      failureOf .sample sys ((Event.connected 0).at 40020) = some (.assertion .sendIdle) := by
  have executed := Machine.execute_reachable Sys.start_initial (step .sample) failedWriteSession
    (fun sys => ((sys.net.sendBufs firstSlot).active = false ∧
      (sys.net.sendBufs firstSlot).rSend = true) ∧ Enabled sys (Event.connected 0) ∧
        failureOf .sample sys ((Event.connected 0).at 40020) = some (.assertion .sendIdle))
    (by decide +kernel)
  generalize Machine.execute _ _ _ = state at executed
  obtain ⟨reachable, ⟨inactive, request⟩, enabled, fails⟩ := executed
  refine ⟨state, reachable, fun holds => ?_, enabled, fails⟩
  rw [holds.free firstSlot inactive] at request
  cases request

end EpicMiner.EventLoop
