import EpicMiner.EventLoop.SendCalls
import EpicMiner.EventLoop.Writes

/-!
Owns the shutdown of a TLS connection. `do_shutdown` sets `shutting_down` only after its
flush, and the flush calls it again when the ciphertext does not fit a send slot; it also
takes the session for granted, which exists only once the connection is open.
-/

namespace EpicMiner.EventLoop

open EpicMiner.Library
open EpicMiner.Library.Program
open EpicMiner.Data

variable {Engine : Type} {env : Env Engine}

/-! ## Specifications -/

namespace Sys

/-- After `SSL_shutdown`. -/
def shutdownSent (env : Env Engine) (sys : Sys Engine) : Sys Engine :=
  sys.withTls fun tls => { tls with engine := env.openssl.shutdown tls.engine }

end Sys

section Specs

variable {sys : Sys Engine} {post : Unit → Sys Engine → Prop} {fault : Fault → Prop}

theorem ensures_tlsDoShutdown (depth : Nat) :
    Ensures (tlsDoShutdown env (depth + 1)) sys post fault ↔
      (sys.net.shuttingDown = true → post () (sys.logged .shutdownCalled)) ∧
      (sys.net.shuttingDown = false → sys.tls.ssl = false → fault .nullPointer) ∧
      (sys.net.shuttingDown = false → sys.tls.ssl = true →
        Ensures (flushTlsPending env (tlsDoShutdown env depth) >>= fun _ => netDoShutdown)
          ((sys.logged .shutdownCalled).shutdownSent env) post fault) := by
  simp only [tlsDoShutdown, ensures_bind, ensures_record, ensures_get, ensures_ite, ensures_pure,
    ensures_throw, ensures_setTls, Bool.not_eq_true, Bool.not_eq_false]
  constructor
  · rintro ⟨guard, open'⟩
    exact ⟨guard, fun up => (open' up).1, fun up => (open' up).2⟩
  · rintro ⟨guard, null, sends⟩
    exact ⟨guard, fun up => ⟨null up, sends up⟩⟩

end Specs

/-! ## What a shutdown is for -/

def Effect.isRequest : Effect → Bool
  | .uvShutdown _ => true
  | _ => false

/-- A call of `do_shutdown` ends with the shutdown under way, on a large enough stack. It
calls `uv_shutdown` at most once, and not when the shutdown was under way before. -/
def ShutsProperly (env : Env Engine) (sys : Sys Engine) : Prop :=
  ∃ depth, ∀ stack, depth ≤ stack → Ensures (tlsDoShutdown env stack) sys
    (fun _ next => next.net.shuttingDown = true ∧
      ∃ newer, next.app.log = newer ++ sys.app.log ∧
        newer.countP Effect.isRequest = if sys.net.shuttingDown then 0 else 1)
    fun _ => False

/-- The states in which it does. -/
def ShutsFrom (env : Env Engine) (sys : Sys Engine) : Prop :=
  sys.net.shuttingDown = true ∨
    sys.tls.ssl = true ∧ sys.net.rShutdown = false ∧
      ((sys.shutdownSent env).pending env = 0 ∨
        (sys.shutdownSent env).pending env ≤ 2048 ∧ sys.Takes)

/-- `SSL_shutdown` adds to the pending ciphertext and takes nothing from it. -/
def OpenSsl.KeepsPending (openssl : OpenSsl Engine) : Prop :=
  ∀ engine, openssl.bioPending engine ≤ openssl.bioPending (openssl.shutdown engine)

/-! ## Proper shutdowns -/

section Proper

variable {sys : Sys Engine}

theorem shutsProperly_of_down (down : sys.net.shuttingDown = true) : ShutsProperly env sys := by
  refine ⟨1, fun stack enough => ?_⟩
  obtain ⟨depth, rfl⟩ : ∃ depth, stack = depth + 1 := ⟨stack - 1, by omega⟩
  rw [ensures_tlsDoShutdown]
  refine ⟨fun _ => ⟨down, [.shutdownCalled], rfl, by simp [Effect.isRequest, down]⟩, ?_, ?_⟩
  · exact fun up => absurd (down.symm.trans up) (by decide)
  · exact fun up => absurd (down.symm.trans up) (by decide)

/-- The end of a shutdown whose flush wrote `newer`. -/
theorem shuts_after_flush {flushed : Sys Engine} (newer : List Effect)
    (log : flushed.app.log = newer ++ sys.app.log)
    (quiet : newer.countP Effect.isRequest = 0) (up : sys.net.shuttingDown = false)
    (still : flushed.net.shuttingDown = false) (idle : flushed.net.rShutdown = false) :
    Ensures netDoShutdown flushed (fun _ next => next.net.shuttingDown = true ∧
      ∃ newer, next.app.log = newer ++ sys.app.log ∧
        newer.countP Effect.isRequest = if sys.net.shuttingDown then 0 else 1)
      fun _ => False := by
  refine ensures_netDoShutdown.mpr ⟨fun down => ?_, fun _ _ => ⟨rfl, ?_⟩, fun _ busy => ?_⟩
  · exact absurd (down.symm.trans still) (by decide)
  · refine ⟨.uvShutdown flushed.shutdownAccepted :: .shutdownCalled :: newer, ?_, ?_⟩
    · exact congrArg (fun log => Effect.uvShutdown flushed.shutdownAccepted ::
        Effect.shutdownCalled :: log) log
    · rw [List.countP_cons_of_pos rfl, List.countP_cons_of_neg (by decide), quiet, up]
      rfl
  · exact absurd (busy.symm.trans idle) (by decide)

theorem shutsProperly_of_shutsFrom (reads : env.openssl.ReadsPending)
    (shuts : ShutsFrom env sys) : ShutsProperly env sys := by
  rcases shuts with down | ⟨session, idle, room⟩
  · exact shutsProperly_of_down down
  by_cases down : sys.net.shuttingDown = true
  · exact shutsProperly_of_down down
  have up : sys.net.shuttingDown = false := by simpa using down
  refine ⟨1, fun stack enough => ?_⟩
  obtain ⟨depth, rfl⟩ : ∃ depth, stack = depth + 1 := ⟨stack - 1, by omega⟩
  rw [ensures_tlsDoShutdown]
  refine ⟨fun down => absurd down (by simp [up]), fun _ none => ?_, fun _ _ => ?_⟩
  · exact absurd (session.symm.trans none) (by decide)
  rw [ensures_bind, ensures_flushTlsPending reads]
  have sent : ((sys.logged .shutdownCalled).shutdownSent env).pending env =
      (sys.shutdownSent env).pending env := rfl
  rw [sent]
  refine ⟨fun _ => ?_, fun filled noSlot => ?_, fun filled idx free => ⟨fun long => ?_,
    fun _ busy => ?_, fun _ _ => ?_⟩⟩
  · exact shuts_after_flush [.shutdownCalled] rfl rfl up up idle
  · obtain ⟨-, slot, free, -⟩ := room.resolve_left filled
    have same : sys.freeSlot = none := noSlot
    rw [free] at same
    cases same
  · have fits := (room.resolve_left filled).1
    omega
  · obtain ⟨-, slot, free', request⟩ := room.resolve_left filled
    have same : sys.freeSlot = some idx := free
    rw [same] at free'
    cases free'
    exact absurd (busy.symm.trans request) (by decide)
  · exact shuts_after_flush [_, .shutdownCalled] rfl rfl up up idle

theorem pending_shutdownSent (keeps : env.openssl.KeepsPending) (sys : Sys Engine) :
    sys.pending env ≤ (sys.shutdownSent env).pending env := by
  unfold Sys.pending
  change (if sys.tls.bio then env.openssl.bioPending sys.tls.engine else 0) ≤
    if sys.tls.bio then env.openssl.bioPending (env.openssl.shutdown sys.tls.engine) else 0
  split
  · exact keeps sys.tls.engine
  · exact Nat.le_refl 0

/-- With more ciphertext than a slot holds, every level of the recursion takes a slot. -/
theorem not_ensures_overflow (reads : env.openssl.ReadsPending)
    (keeps : env.openssl.KeepsPending) (depth : Nat) (up : sys.net.shuttingDown = false)
    (long : 2048 < (sys.shutdownSent env).pending env) (post : Unit → Sys Engine → Prop) :
    ¬Ensures (tlsDoShutdown env depth) sys post fun _ => False := by
  induction depth generalizing sys post with
  | zero => exact id
  | succ depth inductionHypothesis =>
      rw [ensures_tlsDoShutdown]
      rintro ⟨-, null, sends⟩
      by_cases session : sys.tls.ssl = true
      · have flush := sends up session
        rw [ensures_bind, ensures_flushTlsPending reads] at flush
        have sent : ((sys.logged .shutdownCalled).shutdownSent env).pending env =
            (sys.shutdownSent env).pending env := rfl
        rw [sent] at flush
        obtain ⟨-, none, some⟩ := flush
        have filled : (sys.shutdownSent env).pending env ≠ 0 := by omega
        cases free : ((sys.logged .shutdownCalled).shutdownSent env).freeSlot with
        | none => exact none filled free
        | some idx =>
            have reported := (some filled idx free).1 long
            unfold netOnError at reported
            simp only [bind_assoc] at reported
            rw [ensures_bind_of_run rfl, ensures_bind] at reported
            refine inductionHypothesis ?_ ?_ _ reported
            · exact up
            · exact long.trans_le (pending_shutdownSent keeps _)
      · exact null up (by simpa using session)

theorem shutsFrom_of_shutsProperly (reads : env.openssl.ReadsPending)
    (keeps : env.openssl.KeepsPending) (proper : ShutsProperly env sys) : ShutsFrom env sys := by
  obtain ⟨depth, enough⟩ := proper
  have ends := enough (depth + 1) (Nat.le_succ depth)
  by_cases down : sys.net.shuttingDown = true
  · exact .inl down
  have up : sys.net.shuttingDown = false := by simpa using down
  by_cases long : 2048 < (sys.shutdownSent env).pending env
  · exact absurd ends (not_ensures_overflow reads keeps _ up long _)
  rw [ensures_tlsDoShutdown] at ends
  obtain ⟨-, null, sends⟩ := ends
  have session : sys.tls.ssl = true := by
    by_contra off
    exact null up (by simpa using off)
  have flush := sends up session
  rw [ensures_bind, ensures_flushTlsPending reads] at flush
  have sent : ((sys.logged .shutdownCalled).shutdownSent env).pending env =
      (sys.shutdownSent env).pending env := rfl
  rw [sent] at flush
  obtain ⟨nothing, noSlot, slot⟩ := flush
  by_cases empty : (sys.shutdownSent env).pending env = 0
  · refine .inr ⟨session, ?_, .inl empty⟩
    by_contra busy
    have request : sys.net.rShutdown = true := by simpa using busy
    exact (ensures_netDoShutdown.mp (nothing empty)).2.2 up request
  · cases free : sys.freeSlot with
    | none => exact (noSlot empty free).elim
    | some idx =>
        obtain ⟨-, stale, hands⟩ := slot empty idx free
        have request : (sys.net.sendBufs idx).rSend = false := by
          by_contra busy
          have used : (sys.net.sendBufs idx).rSend = true := by simpa using busy
          exact stale (by omega) used
        refine .inr ⟨session, ?_, .inr ⟨by omega, idx, free, request⟩⟩
        by_contra busy
        have down : sys.net.rShutdown = true := by simpa using busy
        exact (ensures_netDoShutdown.mp (hands (by omega) request)).2.2 up down

end Proper

/-! ## Requests of a run -/

/-- The calls of `uv_shutdown` since the last close. -/
def requestsSinceClose : List Effect → Nat
  | [] => 0
  | .closed :: _ => 0
  | .uvShutdown _ :: older => requestsSinceClose older + 1
  | _ :: older => requestsSinceClose older

/-- No connection of the log had more than one call of `uv_shutdown`. -/
def AtMostOnce : List Effect → Prop
  | [] => True
  | effect :: older => requestsSinceClose (effect :: older) ≤ 1 ∧ AtMostOnce older

/-- Neither a request nor a close. -/
def Effect.isPassing : Effect → Bool
  | .uvShutdown _ => false
  | .closed => false
  | _ => true

theorem Effect.isPassing_of_isHandling {effect : Effect} (handling : effect.isHandling = true) :
    effect.isPassing = true := by
  cases effect <;> first | rfl | cases handling

/-- A call of `uv_shutdown` leaves its mark until the close. -/
structure Marked (sys : Sys Engine) : Prop where
  once : AtMostOnce sys.app.log
  last : requestsSinceClose sys.app.log ≤ 1
  mark : requestsSinceClose sys.app.log ≠ 0 → sys.net.shuttingDown = true

def marking : Behaviour Fault (Sys Engine) :=
  .keeping Marked fun _ => False

theorem requestsSinceClose_passing {newer : List Effect} (older : List Effect)
    (passing : ∀ effect ∈ newer, effect.isPassing = true) :
    requestsSinceClose (newer ++ older) = requestsSinceClose older := by
  induction newer with
  | nil => rfl
  | cons effect rest inductionHypothesis =>
      have kept := inductionHypothesis fun other member => passing other (.tail _ member)
      have here := passing effect (.head _)
      cases effect <;> first | exact kept | cases here

theorem Marked.passing {sys next : Sys Engine} (marked : Marked sys) (newer : List Effect)
    (log : next.app.log = newer ++ sys.app.log)
    (passing : ∀ effect ∈ newer, effect.isPassing = true)
    (down : next.net.shuttingDown = sys.net.shuttingDown) : Marked next := by
  have kept := requestsSinceClose_passing sys.app.log passing
  refine ⟨?_, ?_, ?_⟩
  · rw [log]
    clear log kept
    induction newer with
    | nil => exact marked.once
    | cons effect rest inductionHypothesis =>
        refine ⟨?_, inductionHypothesis fun other member => passing other (.tail _ member)⟩
        exact (requestsSinceClose_passing sys.app.log passing).trans_le marked.last
  · rw [log, kept]
    exact marked.last
  · rw [log, kept, down]
    exact marked.mark

theorem marking_turn (env : Env Engine) : Turn env marking where
  fault := fun _ _ _ => id
  admitted := fun _ _ marked => marked.passing [] rfl (by simp) rfl
  plumbing := fun _ _ app down _ _ marked => marked.passing [] (by rw [app]; rfl) (by simp) down
  logError := fun _ _ marked => marked.passing [_] rfl (by simp [Effect.isPassing]) rfl
  shutdownCalled := fun _ marked => marked.passing [_] rfl (by simp [Effect.isPassing]) rfl
  uvWrite := fun _ _ _ _ _ marked => marked.passing [_] rfl (by simp [Effect.isPassing]) rfl
  shutdownStarted := by
    intro sys up _ marked
    have none : requestsSinceClose sys.app.log = 0 := by
      by_contra some
      exact absurd (up.symm.trans (marked.mark some)) (by decide)
    have one : requestsSinceClose sys.shutdownStarted.app.log = 1 :=
      congrArg (· + 1) none
    exact ⟨⟨one.le, marked.once⟩, one.le, fun _ => rfl⟩
  jobDropped := fun _ _ marked => marked.passing [_] rfl (by simp [Effect.isPassing]) rfl
  document := fun sys members _ => Ends.document (fun _ _ _ => id) fun app handled marked => by
    obtain ⟨newer, log, handlings⟩ := handled.log
    refine marked.passing (newer ++ [.document (.object members)]) ?_ ?_ rfl
    · rw [List.append_assoc]
      exact log
    · intro effect member
      rcases List.mem_append.mp member with member | member
      · exact Effect.isPassing_of_isHandling (handlings effect member)
      · rw [List.mem_singleton.mp member]
        rfl
  welcomed := fun _ _ _ marked => marked.passing [] rfl (by simp) rfl
  loginMade := fun _ _ marked => marked.passing [_] rfl (by simp [Effect.isPassing]) rfl
  shareMade := fun _ _ _ marked => marked.passing [_, _] rfl (by simp [Effect.isPassing]) rfl
  dialled := fun _ _ marked => marked.passing [_] rfl (by simp [Effect.isPassing]) rfl
  shutdownEnded := fun _ _ marked => marked.passing [] rfl (by simp) rfl
  socketClosed := fun sys _ marked => by
    have before : AtMostOnce sys.app.disconnected.log :=
      (@Marked.passing _ sys { sys with app := sys.app.disconnected } marked [_, _] rfl
        (by simp [Effect.isPassing]) rfl).once
    exact ⟨⟨Nat.zero_le 1, before⟩, Nat.zero_le 1, fun some => absurd rfl some⟩

theorem reachable_marked {sys : Sys Engine} (reachable : (machine env).Reachable sys) :
    Marked sys := by
  obtain ⟨start, initial, change⟩ := (marking_turn env).run reachable
  apply change
  have empty := initial.logEmpty
  refine ⟨?_, ?_, ?_⟩
  · rw [empty]
    trivial
  · rw [empty]
    exact Nat.zero_le 1
  · rw [empty]
    exact fun some => absurd rfl some

/-- In every state, a call of `do_shutdown` is proper exactly if the session exists and the
flush finds room, or the shutdown is already under way; and in every run `uv_shutdown` is
called at most once for each connection. -/
theorem shutdowns_proper (env : Env Engine) (reads : env.openssl.ReadsPending)
    (keeps : env.openssl.KeepsPending) :
    (∀ sys, ShutsProperly env sys ↔ ShutsFrom env sys) ∧
      ∀ sys, (machine env).Reachable sys → AtMostOnce sys.app.log :=
  ⟨fun _ => ⟨shutsFrom_of_shutsProperly reads keeps, shutsProperly_of_shutsFrom reads⟩,
    fun _ reachable => (reachable_marked reachable).once⟩

/-! ## Sample shutdowns -/

theorem OpenSsl.outbox_keepsPending : OpenSsl.outbox.KeepsPending :=
  fun _ => Nat.le_refl _

/-- A kilobyte of ciphertext and a free slot. -/
theorem shutdowns_proper_outbox : ShutsProperly .outbox Sys.outbox :=
  ((shutdowns_proper .outbox OpenSsl.outbox_readsPending OpenSsl.outbox_keepsPending).1
    Sys.outbox).mpr (.inr ⟨rfl, rfl, .inr ⟨by decide +kernel, 0, by decide, rfl⟩⟩)

/-- A pool over TLS is dialled, and its name is not resolved. -/
def unresolvedDial : List Input :=
  [Event.heartbeat.at 20000]

/-- The DNS error calls `do_shutdown` before there is a session. -/
theorem dns_error_not_shutsProperly :
    ∃ sys, (machine (.tlsPlain Env.sample.config)).Reachable sys ∧
      ¬ShutsProperly (.tlsPlain Env.sample.config) sys ∧
      failureOf (.tlsPlain Env.sample.config) sys ((Event.dnsResolved (-3008) [] 0).at 20010) =
        some .nullPointer := by
  have executed := Machine.execute_reachable Sys.start_initial
    (step (.tlsPlain Env.sample.config)) unresolvedDial
    (fun sys => (sys.net.shuttingDown = false ∧ sys.tls.ssl = false) ∧
      failureOf (.tlsPlain Env.sample.config) sys
        ((Event.dnsResolved (-3008) [] 0).at 20010) = some .nullPointer) (by decide +kernel)
  generalize Machine.execute _ _ _ = state at executed
  obtain ⟨reachable, ⟨up, session⟩, fails⟩ := executed
  refine ⟨state, reachable, fun proper => ?_, fails⟩
  obtain ⟨depth, enough⟩ := proper
  have ends := enough (depth + 1) (Nat.le_succ depth)
  rw [ensures_tlsDoShutdown] at ends
  exact ends.2.1 up session

end EpicMiner.EventLoop
