import EpicMiner.EventLoop.Lifecycle
import EpicMiner.EventLoop.Submit

/-!
Owns the calls that take a send slot: the login and submit lines, the plain
socket write and the TLS flush. Each of them has its own way of meeting a full
set of slots or a message that is too long, and only some of these ways leave
the slots as they were.
-/

namespace EpicMiner.EventLoop

open EpicMiner.Library
open EpicMiner.Library.Program
open EpicMiner.Data

variable {Engine : Type}

/-- `net_interface::do_socket_write`, on a plain connection. -/
def netDoSocketWrite (env : Env Engine) (data : Bytes) : Loop Engine Unit := do
  match ← getSendBuffer with
  | none =>
      netOnError env netDoShutdown (ascii "Limit of 4 concurrent sends exceeded!")
      netDoShutdown
  | some idx =>
      if 2048 < data.length then
        netOnError env netDoShutdown (ascii "Buffer overflow on send!")
        netDoShutdown
      else
        setSlot idx fun slot => { slot with data := slot.data.write 0 data }
        finalizeSocketWrite idx data.length

/-! ## What a call comes to -/

def uvWrites (log : List Effect) : List (Nat × Bytes × Nat) :=
  log.filterMap fun effect =>
    match effect with
    | .uvWrite slot data len _ => some (slot, data, len)
    | _ => none

def errorsLogged (log : List Effect) : List Bytes :=
  log.filterMap fun effect =>
    match effect with
    | .logError text => some text
    | _ => none

/-- The whole message was handed to `uv_write` in a slot that was free. -/
def Sent (message : Bytes) (sys next : Sys Engine) : Prop :=
  ∃ idx : Fin 4, (sys.net.sendBufs idx).active = false ∧
    uvWrites next.app.log = (idx.val, message, message.length) :: uvWrites sys.app.log

/-- No byte was sent, no slot was left active, and an error was reported unless
there was nothing to send. -/
def Unsent (message : Bytes) (sys next : Sys Engine) : Prop :=
  uvWrites next.app.log = uvWrites sys.app.log ∧
    (∀ idx, (next.net.sendBufs idx).active = (sys.net.sendBufs idx).active) ∧
    (message = [] ∨ ∃ text, errorsLogged next.app.log = text :: errorsLogged sys.app.log)

/-- `program` ends, with `message` sent as a whole or not at all. -/
def AllOrNothing (program : Loop Engine Unit) (message : Bytes) (sys : Sys Engine) : Prop :=
  Ensures program sys (fun _ next => Sent message sys next ∨ Unsent message sys next)
    fun _ => False

namespace Sys

/-- The slot that `get_send_buffer` would take. -/
def freeSlot (sys : Sys Engine) : Option (Fin 4) :=
  (List.finRange 4).find? fun idx => !(sys.net.sendBufs idx).active

/-- A message can be handed to `uv_write`: a slot is free, and its request is not
in use. -/
def Takes (sys : Sys Engine) : Prop :=
  ∃ idx, sys.freeSlot = some idx ∧ (sys.net.sendBufs idx).rSend = false

theorem freeSlot_inactive {sys : Sys Engine} {idx : Fin 4} (free : sys.freeSlot = some idx) :
    (sys.net.sendBufs idx).active = false := by
  simpa using List.find?_some free

def acquired (idx : Fin 4) (sys : Sys Engine) : Sys Engine :=
  sys.withSlot idx fun slot => { slot with active := true }

@[simp] theorem sendBufs_withSlot (idx : Fin 4) (update : SendSt → SendSt) (sys : Sys Engine) :
    (sys.withSlot idx update).net.sendBufs idx = update (sys.net.sendBufs idx) := by
  simp [withSlot]

end Sys

section Specs

variable {sys : Sys Engine} {fault : Fault → Prop}

theorem ensures_getSendBuffer {post : Option (Fin 4) → Sys Engine → Prop} :
    Ensures getSendBuffer sys post fault ↔
      (sys.freeSlot = none → post none sys) ∧
      ∀ idx, sys.freeSlot = some idx → post (some idx) (sys.acquired idx) := by
  unfold getSendBuffer
  rw [ensures_bind, ensures_get]
  change Ensures (match sys.freeSlot with
    | none => pure none
    | some idx => setSlot idx (fun slot => { slot with active := true }) >>= fun _ => pure (some idx))
    _ _ _ ↔ _
  cases free : sys.freeSlot with
  | none => simp
  | some idx =>
      simp only [ensures_bind, ensures_setSlot, ensures_pure, reduceCtorEq, false_implies,
        Option.some.injEq, true_and, forall_eq']
      rfl

theorem ensures_finalizeSocketWrite {post : Unit → Sys Engine → Prop} {idx : Fin 4} {len : Nat}
    (active : (sys.net.sendBufs idx).active = true) :
    Ensures (finalizeSocketWrite idx len) sys post fault ↔
      (len = 0 → post () (sys.withSlot idx fun slot => { slot with active := false })) ∧
      (len ≠ 0 → (sys.net.sendBufs idx).rSend = true → fault (.assertion .sendIdle)) ∧
      (len ≠ 0 → (sys.net.sendBufs idx).rSend = false → post () (sys.handedOver idx len)) := by
  simp only [finalizeSocketWrite, ensures_bind, ensures_get, ensures_ite, ensures_throw, active,
    Bool.true_eq_false, false_implies, not_false_eq_true, true_implies, true_and,
    ensures_setSlot, Bool.not_eq_true, imp_and]
  exact Iff.rfl

end Specs

/-! ## Lines -/

theorem getLast?_loginLine (env : Env Engine) (callId : UInt32) :
    (loginLine env callId).getLast? = some 10 := by
  have ends : (ascii "\x7d\n").getLast? = some 10 := by decide
  rw [loginLine, List.getLast?_append, ends]
  rfl

theorem getLast?_submitLine (poolMinerId : Bytes) (res : MinerResult) (callId : UInt32) :
    (submitLine poolMinerId res callId).getLast? = some 10 := by
  have ends : (ascii "\x7d\n").getLast? = some 10 := by decide
  rw [submitLine, List.getLast?_append, ends]
  rfl

theorem length_snprintf {size : Nat} (positive : 0 < size) (line : Bytes) :
    (snprintf size line).length = min (line.length + 1) size := by
  simp only [snprintf, List.length_append, List.length_take, List.length_singleton]
  omega

/-- The bytes that a formatted line is sent with are the line exactly if it fits
the buffer, its terminating NUL included. -/
theorem take_snprintf_eq_iff {size : Nat} (positive : 0 < size) {line : Bytes}
    (ended : line.getLast? = some 10) :
    (snprintf size line).take line.length = line ↔ line.length < size := by
  have stored := length_snprintf positive line
  constructor
  · intro whole
    by_contra long
    have taken := congrArg List.length whole
    rw [List.length_take, stored] at taken
    rw [List.take_of_length_le (by omega)] at whole
    have last := congrArg List.getLast? whole
    rw [snprintf, List.getLast?_append, ended] at last
    simp at last
  · intro fits
    rw [snprintf, List.take_of_length_le (show line.length ≤ size - 1 by omega), List.take_left]

theorem slice_snprintf (buffer : Buffer 2048) (line : Bytes) :
    (buffer.write 0 (snprintf 2048 line)).slice 0 line.length =
      (snprintf 2048 line).take line.length := by
  have stored := length_snprintf (show 0 < 2048 by decide) line
  have sized := buffer.sized
  rw [Buffer.slice, Buffer.cells_write, writeAt_eq _ _ _ (by omega), List.drop_zero, List.take_zero,
    List.nil_append]
  by_cases fits : line.length ≤ (snprintf 2048 line).length
  · exact List.take_append_of_le_length fits
  · rw [List.drop_of_length_le (by omega), List.append_nil]

/-! ## The hand-over under TLS -/

/-- Whatever `do_socket_write` does, the program comes down to a call of it on these bytes and
this length, made in the state `prepared`. -/
def HandsOver (program : (Bytes → Nat → Loop Engine Unit) → Loop Engine Unit)
    (sys prepared : Sys Engine) (data : Bytes) (len : Nat) : Prop :=
  ∀ doSocketWrite, (program doSocketWrite).run sys = (doSocketWrite data len).run prepared

/-- A program hands over one state, buffer and length only. -/
theorem HandsOver.unique {program : (Bytes → Nat → Loop Engine Unit) → Loop Engine Unit}
    {sys prepared other : Sys Engine} {data otherData : Bytes} {len otherLen : Nat}
    (hands : HandsOver program sys prepared data len)
    (again : HandsOver program sys other otherData otherLen) :
    prepared = other ∧ data = otherData ∧ len = otherLen := by
  have ended := (hands fun _ _ => pure ()).symm.trans (again fun _ _ => pure ())
  have same : prepared = other := by
    injection ended with pair
    injection pair
  have written := (hands fun data len => record (.uvWrite 0 data len true)).symm.trans
    (again fun data len => record (.uvWrite 0 data len true))
  injection written with pair
  injection pair with _ recorded
  have logs : (Effect.uvWrite 0 data len true :: prepared.app.log) =
      .uvWrite 0 otherData otherLen true :: other.app.log :=
    congrArg (fun sys : Sys Engine => sys.app.log) recorded
  injection logs with entry
  injection entry with _ sameData sameLen
  exact ⟨same, sameData, sameLen⟩

section HandsOver

variable {env : Env Engine} (tls : env.useTls = true)

include tls

theorem handsOver_sendLine (line : Bytes) (sys : Sys Engine) :
    HandsOver (fun write => sendLineThrough env write line) sys sys (snprintf 1024 line)
      line.length := by
  intro write
  simp only [sendLineThrough, tls, if_true]

theorem handsOver_doLoginCall (sys : Sys Engine) :
    let line := loginLine env (sys.registration .login invalidMinerId).2.1
    HandsOver (doLoginCallThrough env) sys sys.loginMade (snprintf 1024 line) line.length := by
  intro line write
  have prepared : (liftApp prepareLogin).run sys =
      .ok ((sys.registration .login invalidMinerId).2.1, sys.loginMade) := rfl
  unfold doLoginCallThrough
  rw [StateT.run_bind, prepared]
  exact handsOver_sendLine tls line sys.loginMade write

theorem handsOver_doSendResult (res : MinerResult) {sys : Sys Engine}
    (hasJob : sys.app.pool.state = .hasJob) :
    let line := submitLine sys.app.pool.poolMinerId res (sys.registration .result res.minerId).2.1
    HandsOver (fun write => doSendResultThrough env write res) sys (sys.shareMade res)
      (snprintf 1024 line) line.length := by
  intro line write
  unfold doSendResultThrough
  rw [StateT.run_bind, StateT.run_get, pure_bind, if_neg (not_not.mpr hasJob), StateT.run_bind,
    run_prepareResult]
  exact handsOver_sendLine tls line (sys.shareMade res) write

end HandsOver

/-! ## Filling a slot -/

/-- A slot that was acquired, filled with `data` and handed over delivers the message exactly
if `data` starts with it. -/
theorem delivered_handedOver_iff {sys taken : Sys Engine} {idx : Fin 4}
    (free : sys.freeSlot = some idx) (net : taken.net = (sys.acquired idx).net)
    (app : taken.app = sys.app) (message data : Bytes) :
    let next := (taken.withSlot idx fun slot =>
      { slot with data := slot.data.write 0 data }).handedOver idx message.length
    Sent message sys next ∨ Unsent message sys next ↔
      ((sys.net.sendBufs idx).data.write 0 data).slice 0 message.length = message := by
  intro next
  have slot : taken.net.sendBufs idx = { sys.net.sendBufs idx with active := true } := by
    rw [net, Sys.acquired, Sys.sendBufs_withSlot]
  have log : uvWrites next.app.log =
      (idx.val, ((sys.net.sendBufs idx).data.write 0 data).slice 0 message.length,
        message.length) :: uvWrites sys.app.log := by
    rw [← app]
    simp [next, Sys.handedOver, Sys.withSlot, App.record, uvWrites, slot]
  constructor
  · rintro (⟨other, -, sent⟩ | ⟨same, -⟩)
    · rw [log] at sent
      injection sent with entry
      injection entry with _ entry
      injection entry
    · rw [log] at same
      exact absurd same (List.cons_ne_self _ _)
  · intro whole
    exact .inl ⟨idx, Sys.freeSlot_inactive free, by rw [log, whole]⟩

/-- The same of the code: the request of the slot must not be in use either. -/
theorem allOrNothing_fill_iff {sys taken : Sys Engine} {idx : Fin 4} (free : sys.freeSlot = some idx)
    (net : taken.net = (sys.acquired idx).net) (app : taken.app = sys.app) {message : Bytes}
    (nonempty : message ≠ []) (data : Bytes) :
    Ensures (setSlot idx (fun slot => { slot with data := slot.data.write 0 data }) >>= fun _ =>
        finalizeSocketWrite idx message.length) taken
      (fun _ next => Sent message sys next ∨ Unsent message sys next) (fun _ => False) ↔
      (sys.net.sendBufs idx).rSend = false ∧
        ((sys.net.sendBufs idx).data.write 0 data).slice 0 message.length = message := by
  have filled : message.length ≠ 0 := mt List.length_eq_zero_iff.mp nonempty
  have slot : taken.net.sendBufs idx = { sys.net.sendBufs idx with active := true } := by
    rw [net, Sys.acquired, Sys.sendBufs_withSlot]
  rw [ensures_bind, ensures_setSlot, ensures_finalizeSocketWrite (by simp [slot])]
  simp only [filled, ne_eq, not_false_eq_true, false_implies, true_implies, true_and,
    Sys.sendBufs_withSlot, slot]
  have delivered := delivered_handedOver_iff free net app message data
  cases (sys.net.sendBufs idx).rSend with
  | true => simp
  | false => simpa using delivered

/-- The state after a line was formatted into the slot `idx` and handed over. -/
def Sys.lineSent (sys : Sys Engine) (idx : Fin 4) (line : Bytes) : Sys Engine :=
  ((sys.acquired idx).withSlot idx fun slot =>
    { slot with data := slot.data.write 0 (snprintf 2048 line) }).handedOver idx line.length

@[simp] theorem uv_connected_lineSent (sys : Sys Engine) (idx : Fin 4) (line : Bytes) :
    (sys.lineSent idx line).uv.connected = sys.uv.connected :=
  rfl

theorem log_lineSent (sys : Sys Engine) (idx : Fin 4) (line : Bytes) :
    (sys.lineSent idx line).app.log =
      .uvWrite idx ((snprintf 2048 line).take line.length) line.length (sys.uv.acceptsWrite idx) ::
        sys.app.log := by
  rw [← slice_snprintf (sys.net.sendBufs idx).data line]
  simp [Sys.lineSent, Sys.handedOver, Sys.withSlot, Sys.acquired, App.record]

/-- On a plain connection a line is handed over in one write, unless there is no slot for it
or the request of the slot is in use. -/
theorem ensures_sendLine {env : Env Engine} (plain : env.useTls = false) {line : Bytes}
    (nonempty : line ≠ []) {sys : Sys Engine} {post : Unit → Sys Engine → Prop}
    {fault : Fault → Prop} :
    Ensures (sendLine env line) sys post fault ↔
      (sys.freeSlot = none → fault .nullPointer) ∧
      ∀ idx, sys.freeSlot = some idx →
        ((sys.net.sendBufs idx).rSend = true → fault (.assertion .sendIdle)) ∧
        ((sys.net.sendBufs idx).rSend = false → post () (sys.lineSent idx line)) := by
  have filled : line.length ≠ 0 := mt List.length_eq_zero_iff.mp nonempty
  unfold sendLine sendLineThrough
  simp only [plain, Bool.false_eq_true, if_false]
  rw [ensures_bind, ensures_getSendBuffer]
  apply and_congr
  · simp only [ensures_throw]
  · apply forall_congr'
    intro idx
    apply imp_congr_right
    intro _
    simp only
    rw [ensures_bind, ensures_setSlot, ensures_finalizeSocketWrite (by simp [Sys.acquired])]
    simp only [filled, ne_eq, not_false_eq_true, false_implies, true_implies, true_and,
      Sys.sendBufs_withSlot, Sys.acquired]
    exact Iff.rfl

theorem allOrNothing_sendLine_iff {env : Env Engine} (plain : env.useTls = false) {line : Bytes}
    (ended : line.getLast? = some 10) (sys : Sys Engine) :
    AllOrNothing (sendLine env line) line sys ↔ sys.Takes ∧ line.length < 2048 := by
  have nonempty : line ≠ [] := by
    rintro rfl
    cases ended
  unfold AllOrNothing
  rw [ensures_sendLine plain nonempty]
  cases free : sys.freeSlot with
  | none => simp [Sys.Takes, free]
  | some idx =>
      have delivered : Sent line sys (sys.lineSent idx line) ∨
          Unsent line sys (sys.lineSent idx line) ↔ line.length < 2048 := by
        rw [← take_snprintf_eq_iff (by decide) ended, ← slice_snprintf (sys.net.sendBufs idx).data]
        exact delivered_handedOver_iff free rfl rfl line _
      simp only [reduceCtorEq, false_implies, Option.some.injEq, forall_eq', true_and, Sys.Takes,
        free, exists_eq_left', delivered]
      constructor
      · rintro ⟨idle, fits⟩
        have accepted : (sys.net.sendBufs idx).rSend = false := Bool.eq_false_iff.mpr idle
        exact ⟨accepted, fits accepted⟩
      · rintro ⟨accepted, fits⟩
        exact ⟨Bool.eq_false_iff.mp accepted, fun _ => fits⟩

/-! ## Overflow -/

/-- Slots that are active stay so, and what is handed to `uv_write` comes out of
a slot. -/
def occupying : Behaviour Fault (Sys Engine) where
  Change := fun sys next =>
    (∀ idx, (sys.net.sendBufs idx).active = true → (next.net.sendBufs idx).active = true) ∧
      ∃ newer, uvWrites next.app.log = newer ++ uvWrites sys.app.log ∧
        ∀ write ∈ newer, write.2.1.length ≤ 2048
  Fault := fun _ _ => True
  refl := fun _ => ⟨fun _ active => active, [], rfl, by simp⟩
  trans := by
    rintro first second third ⟨stays, newer, log, short⟩ ⟨stays', newer', log', short'⟩
    refine ⟨fun idx active => stays' idx (stays idx active), newer' ++ newer, ?_, ?_⟩
    · rw [log', log, List.append_assoc]
    · intro write member
      exact (List.mem_append.mp member).elim (short' write) (short write)
  fault_trans := fun _ _ => trivial

theorem occupying_withSlot (sys : Sys Engine) (idx : Fin 4) (update : SendSt → SendSt)
    (stays : (sys.net.sendBufs idx).active = true →
      (update (sys.net.sendBufs idx)).active = true) :
    occupying.Change sys (sys.withSlot idx update) := by
  refine ⟨fun other active => ?_, [], rfl, by simp⟩
  by_cases same : other = idx
  · subst same
    simpa using stays active
  · simpa [Sys.withSlot, same] using active

theorem occupying_core : Core (occupying : Behaviour Fault (Sys Engine)) where
  fault := fun _ _ _ => trivial
  sendIdle := fun _ _ _ _ => trivial
  shutdownIdle := fun _ _ _ => trivial
  logError := fun _ _ => ⟨fun _ active => active, [], rfl, by simp⟩
  shutdownCalled := fun _ => ⟨fun _ active => active, [], rfl, by simp⟩
  shutdownStarted := fun _ _ _ => ⟨fun _ active => active, [], rfl, by simp⟩
  jobDropped := fun _ _ => ⟨fun _ active => active, [], rfl, by simp⟩
  acquire := fun sys idx _ => occupying_withSlot sys idx _ fun _ => rfl
  fill := fun sys idx _ _ => occupying_withSlot sys idx _ id
  handOver := by
    intro sys idx len _ _
    refine ⟨(occupying_withSlot sys idx (fun slot => { slot with rSend := true }) id).1, [_],
      rfl, ?_⟩
    have sized := (sys.net.sendBufs idx).data.sized
    simp [Buffer.slice]
    omega
  engine := fun _ _ => ⟨fun _ active => active, [], rfl, by simp⟩

/-- Once a slot was acquired for a message that does not fit it, the error path
delivers nothing and leaves the slot behind. -/
theorem not_allOrNothing_of_overflow {rest : Loop Engine Unit} (behaves : occupying.Within rest)
    {sys : Sys Engine} {idx : Fin 4} (free : sys.freeSlot = some idx) {message : Bytes}
    (long : 2048 < message.length) :
    ¬ Ensures rest (sys.acquired idx)
      (fun _ next => Sent message sys next ∨ Unsent message sys next) fun _ => False := by
  intro delivers
  obtain ⟨_, next, ended, delivered⟩ := delivers.exists_run
  obtain ⟨⟨stays, newer, log, short⟩, -⟩ := (behaves _).of_run ended
  change uvWrites next.app.log = newer ++ uvWrites sys.app.log at log
  rcases delivered with ⟨other, -, sent⟩ | ⟨-, same, -⟩
  · rw [log, ← List.singleton_append, List.append_left_inj] at sent
    have fits : message.length ≤ 2048 := short _ (sent ▸ List.mem_singleton_self _)
    omega
  · have active := stays idx (by simp [Sys.acquired])
    rw [same idx, Sys.freeSlot_inactive free] at active
    cases active

theorem occupying_reported (env : Env Engine) {shutdown : Loop Engine Unit}
    (shuts : Shuts occupying shutdown) (err : Bytes) :
    occupying.Within (netOnError env shutdown err >>= fun _ => shutdown) :=
  (occupying_core.netOnError shuts err).within.bind fun _ => shuts.within

/-! ## The plain socket write -/

/-- `do_shutdown` can be called without failing its assert. -/
def Sys.ShutsDown (sys : Sys Engine) : Prop :=
  sys.net.shuttingDown = true ∨ sys.net.rShutdown = false

theorem allOrNothing_reported_iff (env : Env Engine) (err message : Bytes) (sys : Sys Engine) :
    AllOrNothing (netOnError env netDoShutdown err >>= fun _ => netDoShutdown) message sys ↔
      sys.ShutsDown := by
  have reports : ∀ next : Sys Engine, next.net.sendBufs = sys.net.sendBufs →
      uvWrites next.app.log = uvWrites sys.app.log →
      errorsLogged next.app.log =
        poolErrorText env.config err :: errorsLogged sys.app.log →
      Sent message sys next ∨ Unsent message sys next := by
    intro next slots writes errors
    exact .inr ⟨writes, fun idx => by rw [slots], .inr ⟨_, errors⟩⟩
  obtain ⟨app, ⟨_, _, _, rShutdown, _, _, _, shuttingDown⟩, tls, uv⟩ := sys
  cases shuttingDown with
  | true => exact ⟨fun _ => .inl rfl, fun _ => reports _ rfl rfl rfl⟩
  | false =>
      cases rShutdown with
      | true => exact ⟨fun delivers => delivers.elim, fun shuts => by simp [Sys.ShutsDown] at shuts⟩
      | false => exact ⟨fun _ => .inr rfl, fun _ => reports _ rfl rfl rfl⟩

theorem allOrNothing_netDoSocketWrite_iff (env : Env Engine) (data : Bytes) (sys : Sys Engine) :
    AllOrNothing (netDoSocketWrite env data) data sys ↔
      (sys.freeSlot = none → sys.ShutsDown) ∧
        ∀ idx, sys.freeSlot = some idx →
          data = [] ∨ (sys.net.sendBufs idx).rSend = false ∧ data.length ≤ 2048 := by
  unfold AllOrNothing netDoSocketWrite
  rw [ensures_bind, ensures_getSendBuffer]
  refine and_congr (imp_congr_right fun _ => allOrNothing_reported_iff env _ data sys) ?_
  refine forall_congr' fun idx => imp_congr_right fun free => ?_
  by_cases long : 2048 < data.length
  · simp only [long, if_true, show ¬ data.length ≤ 2048 by omega, and_false, or_false]
    refine iff_of_false (not_allOrNothing_of_overflow ?_ free long) ?_
    · exact occupying_reported env (occupying_core.writing env).netDoShutdown _
    · rintro rfl
      cases long
  · simp only [long, if_false, show data.length ≤ 2048 by omega, and_true]
    by_cases empty : data = []
    · subst empty
      refine iff_of_true ?_ (.inl rfl)
      rw [ensures_bind, ensures_setSlot, ensures_finalizeSocketWrite (by simp [Sys.acquired])]
      refine ⟨fun _ => .inr ⟨rfl, fun other => ?_, .inl rfl⟩, by simp, by simp⟩
      by_cases same : other = idx
      · subst same
        simp [Sys.freeSlot_inactive free]
      · simp [Sys.withSlot, Sys.acquired, same]
    · rw [allOrNothing_fill_iff free rfl rfl empty,
        Buffer.slice_write_self _ 0 data (by omega)]
      simp [empty]

/-! ## The TLS flush -/

/-- `BIO_pending` of the network side of the BIO pair. -/
def Sys.pending (env : Env Engine) (sys : Sys Engine) : Nat :=
  if sys.tls.bio then env.openssl.bioPending sys.tls.engine else 0

/-- The pending ciphertext. -/
def Sys.ciphertext (env : Env Engine) (sys : Sys Engine) : Bytes :=
  (env.openssl.bioRead sys.tls.engine (sys.pending env)).2.1

/-- `BIO_read` obtains all bytes that `BIO_pending` announces. -/
def OpenSsl.ReadsPending (openssl : OpenSsl Engine) : Prop :=
  ∀ engine, openssl.bioPending engine ≠ 0 →
    (openssl.bioRead engine (openssl.bioPending engine)).1 = openssl.bioPending engine ∧
      (openssl.bioRead engine (openssl.bioPending engine)).2.1.length = openssl.bioPending engine

/-- The pending ciphertext was copied into a slot and handed to `uv_write`. -/
def Sys.flushed (env : Env Engine) (idx : Fin 4) (sys : Sys Engine) : Sys Engine :=
  let read := env.openssl.bioRead sys.tls.engine (sys.pending env)
  (((sys.acquired idx).withTls fun tls => { tls with engine := read.2.2 }).withSlot idx fun slot =>
    { slot with data := slot.data.write 0 read.2.1 }).handedOver idx (sys.pending env)

theorem ensures_flushTlsPending {env : Env Engine} {sys : Sys Engine}
    {post : Unit → Sys Engine → Prop} {fault : Fault → Prop} (reads : env.openssl.ReadsPending)
    (shutdown : Loop Engine Unit) :
    Ensures (flushTlsPending env shutdown) sys post fault ↔
      (sys.pending env = 0 → post () sys) ∧
      (sys.pending env ≠ 0 → sys.freeSlot = none → fault .nullPointer) ∧
      (sys.pending env ≠ 0 → ∀ idx, sys.freeSlot = some idx →
        (2048 < sys.pending env →
          Ensures (netOnError env shutdown (ascii "overflow in flush_tls_pending") >>= fun _ =>
            shutdown) (sys.acquired idx) post fault) ∧
        (sys.pending env ≤ 2048 → (sys.net.sendBufs idx).rSend = true →
          fault (.assertion .sendIdle)) ∧
        (sys.pending env ≤ 2048 → (sys.net.sendBufs idx).rSend = false →
          post () (sys.flushed env idx))) := by
  have folded : (if sys.tls.bio = true then env.openssl.bioPending sys.tls.engine else 0) =
      sys.pending env := rfl
  unfold flushTlsPending
  rw [ensures_bind, ensures_get]
  simp only [folded]
  by_cases empty : sys.pending env = 0
  · simp only [empty, if_true, ne_eq, not_true_eq_false, false_implies, true_implies, and_true]
    exact Iff.rfl
  rw [if_neg empty, ensures_bind, ensures_getSendBuffer]
  simp only [empty, false_implies, ne_eq, not_false_eq_true, true_implies, true_and, ensures_throw]
  refine and_congr Iff.rfl (forall_congr' fun idx => imp_congr_right fun free => ?_)
  rw [ensures_ite]
  apply and_congr Iff.rfl
  by_cases long : 2048 < sys.pending env
  · simp [long, Nat.not_le.mpr long]
  have fits : sys.pending env ≤ 2048 := by omega
  have all : (env.openssl.bioRead sys.tls.engine (sys.pending env)).1 = sys.pending env := by
    have bio : sys.tls.bio = true := by
      by_contra off
      exact empty (by simp [Sys.pending, off])
    have same : sys.pending env = env.openssl.bioPending sys.tls.engine := by
      simp [Sys.pending, bio]
    rw [same] at empty ⊢
    exact (reads _ empty).1
  have tls : (sys.acquired idx).tls = sys.tls := rfl
  simp only [long, fits, not_false_eq_true, true_implies]
  rw [ensures_bind, ensures_get, ensures_bind, ensures_setTls, ensures_bind, ensures_setSlot]
  simp only [tls, all, not_true_eq_false, if_false]
  rw [ensures_finalizeSocketWrite (by simp [Sys.acquired, Sys.withTls])]
  simp only [empty, ne_eq, false_implies, not_false_eq_true, true_implies, true_and,
    Sys.sendBufs_withSlot]
  have slot : (((sys.acquired idx).withTls fun tls =>
      { tls with engine := (env.openssl.bioRead sys.tls.engine (sys.pending env)).2.2 }).net.sendBufs
        idx).rSend = (sys.net.sendBufs idx).rSend := by
    simp [Sys.acquired, Sys.withTls]
  rw [slot]
  exact Iff.rfl

theorem allOrNothing_flushTlsPending_iff {env : Env Engine} (reads : env.openssl.ReadsPending)
    {sys : Sys Engine} (filled : sys.pending env ≠ 0) :
    AllOrNothing (flushTlsPending env (doShutdown env)) (sys.ciphertext env) sys ↔
      sys.Takes ∧ sys.pending env ≤ 2048 := by
  have bio : sys.tls.bio = true := by
    by_contra off
    exact filled (by simp [Sys.pending, off])
  have same : sys.pending env = env.openssl.bioPending sys.tls.engine := by simp [Sys.pending, bio]
  obtain ⟨-, length⟩ := reads sys.tls.engine (same ▸ filled)
  rw [← same] at length
  change (sys.ciphertext env).length = sys.pending env at length
  rw [AllOrNothing, ensures_flushTlsPending reads]
  simp only [filled, false_implies, ne_eq, not_false_eq_true, true_implies, true_and]
  cases free : sys.freeSlot with
  | none => simp [Sys.Takes, free]
  | some idx =>
      simp only [reduceCtorEq, false_implies, Option.some.injEq, forall_eq', true_and, Sys.Takes,
        free, exists_eq_left']
      by_cases long : 2048 < sys.pending env
      · simp only [long, true_implies, show ¬sys.pending env ≤ 2048 by omega, false_implies,
          and_true, and_false, iff_false]
        refine not_allOrNothing_of_overflow ?_ free (by omega)
        exact occupying_reported env occupying_core.doShutdown _
      · have handed := @delivered_handedOver_iff Engine sys
          ((sys.acquired idx).withTls fun tls =>
            { tls with engine := (env.openssl.bioRead sys.tls.engine (sys.pending env)).2.2 })
          idx free rfl rfl (sys.ciphertext env) (sys.ciphertext env)
        rw [Buffer.slice_write_self _ 0 _ (by omega), length] at handed
        have delivers : Sent (sys.ciphertext env) sys (sys.flushed env idx) ∨
            Unsent (sys.ciphertext env) sys (sys.flushed env idx) := handed.mpr rfl
        simp only [long, false_implies, true_and, show sys.pending env ≤ 2048 by omega,
          true_implies, delivers, implies_true, and_true, imp_false, Bool.not_eq_true]

/-! ## Sequences of calls -/

/-- The calls that take a send slot, with what may happen around them. Under TLS
a line is followed up to its hand-over to `do_socket_write`; that function writes to
OpenSSL, and the flushes it makes are calls of their own. -/
inductive SendCall (Engine : Type) where
  | login
  | submit (res : MinerResult)
  | socketWrite (data : Bytes)
  | flush
  | written (idx : Fin 4)
  /-- Whatever else the process, OpenSSL and libuv do: all may change but the
  slots. -/
  | elsewhere (sys : Sys Engine)

def SendCall.program (env : Env Engine) : SendCall Engine → Loop Engine Unit
  | .login => doLoginCallThrough env fun _ _ => return
  | .submit res => doSendResultThrough env (fun _ _ => return) res
  | .socketWrite data => netDoSocketWrite env data
  | .flush => flushTlsPending env (doShutdown env)
  | .written idx => onSocketWriteSt env idx 0
  | .elsewhere other =>
      modify fun sys => { other with net := { other.net with sendBufs := sys.net.sendBufs } }

/-- A formatted line is written as a whole or not at all. Under TLS, `do_socket_write` is
given no more than is stored in the buffer, and all of the line. -/
def WritesLine (env : Env Engine)
    (program : (Bytes → Nat → Loop Engine Unit) → Loop Engine Unit) (line : Bytes)
    (sys : Sys Engine) : Prop :=
  if env.useTls then
    ∃ prepared data len, HandsOver program sys prepared data len ∧
      len ≤ data.length ∧ data.take len = line
  else AllOrNothing (program (tlsDoSocketWrite env)) line sys

/-- A call uses a slot that it got, and writes a complete message or nothing. -/
def SendCall.Proper (env : Env Engine) (sys : Sys Engine) : SendCall Engine → Prop
  | .login =>
      WritesLine env (doLoginCallThrough env)
        (loginLine env (sys.registration .login invalidMinerId).2.1) sys
  | .submit res => sys.app.pool.state = .hasJob →
      WritesLine env (fun write => doSendResultThrough env write res)
        (submitLine sys.app.pool.poolMinerId res (sys.registration .result res.minerId).2.1) sys
  | .socketWrite data => AllOrNothing (netDoSocketWrite env data) data sys
  | .flush => sys.pending env ≠ 0 →
      AllOrNothing (flushTlsPending env (doShutdown env)) (sys.ciphertext env) sys
  | .written _ | .elsewhere _ => True

def FitsLine (env : Env Engine) (line : Bytes) (sys : Sys Engine) : Prop :=
  if env.useTls then line.length < 1024 else sys.Takes ∧ line.length < 2048

/-- The room that a call needs. -/
def SendCall.Fits (env : Env Engine) (sys : Sys Engine) : SendCall Engine → Prop
  | .login => FitsLine env (loginLine env (sys.registration .login invalidMinerId).2.1) sys
  | .submit res => sys.app.pool.state = .hasJob →
      FitsLine env
        (submitLine sys.app.pool.poolMinerId res (sys.registration .result res.minerId).2.1) sys
  | .socketWrite data =>
      (sys.freeSlot = none → sys.ShutsDown) ∧
        ∀ idx, sys.freeSlot = some idx →
          data = [] ∨ (sys.net.sendBufs idx).rSend = false ∧ data.length ≤ 2048
  | .flush => sys.pending env ≠ 0 → sys.Takes ∧ sys.pending env ≤ 2048
  | .written _ | .elsewhere _ => True

/-- Every call of a sequence has the property in the state it is made in. -/
def EveryCall (env : Env Engine) (Property : Sys Engine → SendCall Engine → Prop) :
    Sys Engine → List (SendCall Engine) → Prop
  | _, [] => True
  | sys, call :: rest => Property sys call ∧
      ∀ next, (call.program env).run sys = .ok ((), next) → EveryCall env Property next rest

theorem EveryCall.congr {env : Env Engine} {left right : Sys Engine → SendCall Engine → Prop}
    (same : ∀ sys call, left sys call ↔ right sys call) (calls : List (SendCall Engine))
    (sys : Sys Engine) : EveryCall env left sys calls ↔ EveryCall env right sys calls := by
  induction calls generalizing sys with
  | nil => exact Iff.rfl
  | cons call rest inductionHypothesis =>
      unfold EveryCall
      apply and_congr (same sys call)
      exact forall_congr' fun next => imp_congr_right fun _ => inductionHypothesis next

theorem writesLine_iff {env : Env Engine}
    {program : (Bytes → Nat → Loop Engine Unit) → Loop Engine Unit} {line : Bytes}
    {sys prepared : Sys Engine} (ended : line.getLast? = some 10)
    (hands : env.useTls = true →
      HandsOver program sys prepared (snprintf 1024 line) line.length)
    (plain : env.useTls = false →
      (AllOrNothing (program (tlsDoSocketWrite env)) line sys ↔
        sys.Takes ∧ line.length < 2048)) :
    WritesLine env program line sys ↔ FitsLine env line sys := by
  have whole := take_snprintf_eq_iff (show 0 < 1024 by decide) ended
  have stored := length_snprintf (show 0 < 1024 by decide) line
  unfold WritesLine FitsLine
  cases tls : env.useTls with
  | true =>
      simp only [if_true]
      constructor
      · rintro ⟨other, data, len, again, -, taken⟩
        obtain ⟨-, rfl, rfl⟩ := (hands tls).unique again
        exact whole.mp taken
      · intro fits
        exact ⟨prepared, _, _, hands tls, by omega, whole.mpr fits⟩
  | false => simpa using plain tls

theorem allOrNothing_doLoginCall_iff {env : Env Engine} (plain : env.useTls = false)
    (sys : Sys Engine) :
    AllOrNothing (doLoginCall env) (loginLine env (sys.registration .login invalidMinerId).2.1) sys ↔
      sys.Takes ∧
        (loginLine env (sys.registration .login invalidMinerId).2.1).length < 2048 := by
  have prepared : (liftApp prepareLogin).run sys =
      .ok ((sys.registration .login invalidMinerId).2.1, sys.loginMade) := rfl
  unfold AllOrNothing doLoginCall doLoginCallThrough
  rw [ensures_bind_of_run prepared]
  exact allOrNothing_sendLine_iff plain (getLast?_loginLine env _) sys.loginMade

theorem allOrNothing_doSendResult_iff {env : Env Engine} (plain : env.useTls = false)
    (res : MinerResult) {sys : Sys Engine} (hasJob : sys.app.pool.state = .hasJob) :
    AllOrNothing (doSendResult env res)
        (submitLine sys.app.pool.poolMinerId res (sys.registration .result res.minerId).2.1) sys ↔
      sys.Takes ∧ (submitLine sys.app.pool.poolMinerId res
        (sys.registration .result res.minerId).2.1).length < 2048 := by
  unfold AllOrNothing doSendResult doSendResultThrough
  rw [ensures_bind, ensures_get, if_neg (not_not.mpr hasJob),
    ensures_bind_of_run (run_prepareResult res), ensures_bind, ensures_get]
  exact allOrNothing_sendLine_iff plain (getLast?_submitLine _ res _) (sys.shareMade res)

theorem SendCall.proper_iff_fits {env : Env Engine} (reads : env.openssl.ReadsPending)
    (sys : Sys Engine) (call : SendCall Engine) : call.Proper env sys ↔ call.Fits env sys := by
  cases call with
  | login =>
      exact writesLine_iff (getLast?_loginLine env _) (fun tls => handsOver_doLoginCall tls sys)
        fun plain => allOrNothing_doLoginCall_iff plain sys
  | submit res =>
      refine imp_congr_right fun hasJob => ?_
      exact writesLine_iff (getLast?_submitLine _ res _)
        (fun tls => handsOver_doSendResult tls res hasJob)
        fun plain => allOrNothing_doSendResult_iff plain res hasJob
  | socketWrite data => exact allOrNothing_netDoSocketWrite_iff env data sys
  | flush => exact imp_congr_right fun filled => allOrNothing_flushTlsPending_iff reads filled
  | written idx => exact Iff.rfl
  | elsewhere other => exact Iff.rfl

/-- In any sequence of calls, from any state, all calls are proper exactly if each
call finds the room it needs. -/
theorem send_calls_proper_iff (env : Env Engine) (reads : env.openssl.ReadsPending)
    (sys : Sys Engine) (calls : List (SendCall Engine)) :
    EveryCall env (fun before call => call.Proper env before) sys calls ↔
      EveryCall env (fun before call => call.Fits env before) sys calls :=
  EveryCall.congr (SendCall.proper_iff_fits reads) calls sys

/-! ## Sample calls -/

/-- An OpenSSL that accepts everything it is given and has ciphertext to send. -/
def OpenSsl.outbox : OpenSsl Bytes where
  newSession := fun pending => (true, pending)
  newBioPair := fun pending => (true, pending)
  doHandshake := fun pending => (1, pending)
  getError := fun _ _ => .other
  peerFingerprint := fun pending => (some [], pending)
  write := fun pending data => (data.length, pending ++ data)
  read := fun pending _ => (-1, [], pending)
  shutdown := id
  bioPending := List.length
  bioWrite := fun pending data => (data.length, pending)
  bioRead := fun pending len => ((pending.take len).length, pending.take len, pending.drop len)
  errorText := fun pending => ([], pending)

def Env.outbox : Env Bytes :=
  { Env.sample with
    useTls := true
    openssl := .outbox
    memory := fun _ _ => 0 }

/-- A connection under TLS with a kilobyte of ciphertext to send. -/
def Sys.outbox : Sys Bytes :=
  { Sys.start with
    tls :=
      { ssl := true
        bio := true
        handshakeComplete := true
        ptBuf := default
        ptPos := 0
        engine := List.replicate 1024 0 } }

theorem OpenSsl.outbox_readsPending : OpenSsl.outbox.ReadsPending := by
  intro pending _
  simp [outbox]

theorem send_calls_proper_iff_outbox :
    EveryCall .outbox (fun before call => call.Proper .outbox before) Sys.outbox
        [.login, .flush, .written firstSlot, .flush] ↔
      EveryCall .outbox (fun before call => call.Fits .outbox before) Sys.outbox
        [.login, .flush, .written firstSlot, .flush] :=
  send_calls_proper_iff .outbox OpenSsl.outbox_readsPending Sys.outbox _

/-- Four shares are found before libuv reports the end of any write. -/
def burstSession : List Input :=
  sampleSession ++ (List.range 4).map fun idx => (Event.foundResult sampleShare).at (20040 + idx)

/-- All slots are active, and the line of a fifth share is formatted into the
null buffer. -/
theorem burst_call_not_proper :
    ∃ sys, (machine .sample).Reachable sys ∧
      ¬ EveryCall .sample (fun before call => call.Proper .sample before) sys
        [.submit sampleShare] ∧
      failureOf .sample sys ((Event.foundResult sampleShare).at 20050) = some .nullPointer := by
  have executed := Machine.execute_reachable Sys.start_initial (step .sample) burstSession
    (fun sys => (sys.app.pool.state = .hasJob ∧ sys.freeSlot = none) ∧
      failureOf .sample sys ((Event.foundResult sampleShare).at 20050) = some .nullPointer)
    (by decide +kernel)
  generalize Machine.execute _ _ _ = state at executed
  obtain ⟨reachable, ⟨hasJob, full⟩, fails⟩ := executed
  refine ⟨state, reachable, ?_, fails⟩
  rintro ⟨proper, -⟩
  have delivers := proper hasJob
  have takes := ((allOrNothing_doSendResult_iff rfl sampleShare hasJob).mp delivers).1
  obtain ⟨idx, free, -⟩ := takes
  rw [full] at free
  cases free

end EpicMiner.EventLoop
