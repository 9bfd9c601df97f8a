import EpicMiner.EventLoop.Draining
import EpicMiner.EventLoop.Unencrypted

/-!
Owns the meeting of the record layer and the reads of the socket. `consume_ct_data` calls
`SSL_read` once for each network read, and not at all in the read that completes the
handshake; a record that is left waits for the next traffic.
-/

namespace EpicMiner.EventLoop

open EpicMiner.Library
open EpicMiner.Library.Program
open EpicMiner.Data

variable {Engine : Type}

/-! ## One read -/

/-- The plain path ends a read with the same documents and, while the connection goes on, with
the same bytes left in its buffer. -/
structure DeliveredAs (next plain : Sys Engine) : Prop where
  documents : documents plain.app.log = documents next.app.log
  up : next.net.shuttingDown = false → plain.net.shuttingDown = false
  left : next.net.shuttingDown = false →
    plain.net.recvBuf = next.tls.ptBuf ∧ plain.net.recvPos = next.tls.ptPos

/-- After `BIO_write` and `SSL_read`. -/
def Sys.recordRead (env : Env Engine) (chunk : Bytes) (sys : Sys Engine) : Sys Engine :=
  sys.withTls fun tls =>
    { tls with
      engine := (env.openssl.read (env.openssl.bioWrite tls.engine chunk).2
        (4096 - tls.ptPos)).2.2 }

/-- No document was handed over, and the plaintext buffer is as it was. -/
structure Undelivered (sys next : Sys Engine) : Prop where
  documents : documents next.app.log = documents sys.app.log
  ptBuf : next.tls.ptBuf = sys.tls.ptBuf
  ptPos : next.tls.ptPos = sys.tls.ptPos

def undelivering : Behaviour Fault (Sys Engine) where
  Change := Undelivered
  Fault := fun _ _ => True
  refl := fun _ => ⟨rfl, rfl, rfl⟩
  trans := fun before after => ⟨after.documents.trans before.documents,
    after.ptBuf.trans before.ptBuf, after.ptPos.trans before.ptPos⟩
  fault_trans := fun _ _ => trivial

theorem undelivering_core : Core (undelivering : Behaviour Fault (Sys Engine)) where
  fault := fun _ _ _ => trivial
  sendIdle := fun _ _ _ _ => trivial
  shutdownIdle := fun _ _ _ => trivial
  logError := fun _ _ => ⟨rfl, rfl, rfl⟩
  shutdownCalled := fun _ => ⟨rfl, rfl, rfl⟩
  shutdownStarted := fun _ _ _ => ⟨rfl, rfl, rfl⟩
  jobDropped := fun _ _ => ⟨rfl, rfl, rfl⟩
  acquire := fun _ _ _ => ⟨rfl, rfl, rfl⟩
  fill := fun _ _ _ _ => ⟨rfl, rfl, rfl⟩
  handOver := fun _ _ _ _ _ => ⟨rfl, rfl, rfl⟩
  engine := fun _ _ => ⟨rfl, rfl, rfl⟩

theorem undelivering_handshaking (env : Env Engine) :
    Handshaking env (undelivering : Behaviour Fault (Sys Engine)) where
  toWriting := undelivering_core.writing env
  doHandshake := fun _ => ⟨rfl, rfl, rfl⟩
  peerFingerprint := fun _ => ⟨rfl, rfl, rfl⟩
  complete := fun _ => ⟨rfl, rfl, rfl⟩
  welcomed := fun _ => ⟨rfl, rfl, rfl⟩
  loginMade := fun _ => ⟨rfl, rfl, rfl⟩

theorem steady_handshaking (env : Env Engine) :
    Handshaking env (steady : Behaviour Fault (Sys Engine)) where
  toWriting := steady_core.writing env
  doHandshake := fun _ => .of_frame rfl rfl rfl
  peerFingerprint := fun _ => .of_frame rfl rfl rfl
  complete := by
    intro sys
    constructor <;> first | rfl | exact fun _ => rfl | exact .inl ⟨rfl, rfl, rfl⟩
  welcomed := fun _ => .of_frame rfl rfl rfl
  loginMade := fun _ => .of_frame rfl rfl rfl

section Read

variable {env : Env Engine} {sys : Sys Engine} {chunk : Bytes}

theorem ensures_doShutdown_silent (sys : Sys Engine) :
    Ensures (doShutdown env) sys
      (fun _ next => next.net.shuttingDown = true ∧ Undelivered sys next ∧ Steady sys next)
      fun _ => True := by
  have silent : Shuts undelivering (doShutdown env) := undelivering_core.doShutdown
  have steady : Shuts steady (doShutdown env) := steady_core.doShutdown
  refine Ensures.imp (Ensures.and (silent sys) (steady sys)) ?_ fun _ _ => trivial
  rintro _ next ⟨⟨silent, down⟩, steady, -⟩
  exact ⟨down, silent, steady⟩

section Paired

variable {mid other next : Sys Engine} (paired : Paired mid other) {ptBuf : Buffer 4096}
  {ptPos : Nat}

include paired

/-- The plaintext was taken, and the flush went through. -/
theorem Paired.goesOn
    (silent : Undelivered
      (mid.withTls fun tls => { tls with ptBuf := ptBuf, ptPos := ptPos }) next)
    (steady : Steady (mid.withTls fun tls => { tls with ptBuf := ptBuf, ptPos := ptPos }) next) :
    DeliveredAs next (other.withReceived ptBuf ptPos) where
  documents := paired.documents.trans silent.documents.symm
  up := by
    intro up
    rcases steady.shutdown with ⟨same, -⟩ | ⟨-, -, down, -⟩
    · exact paired.down.trans (same.symm.trans up)
    · exact absurd (down.symm.trans up) (by decide)
  left := fun _ => ⟨silent.ptBuf.symm, silent.ptPos.symm⟩

/-- A call failed, and the shutdown over TLS went through. -/
theorem Paired.shutsDown
    (silent : EventLoop.documents next.app.log = EventLoop.documents mid.app.log)
    (progress : ShutdownProgress mid next) (down : next.net.shuttingDown = true)
    (recvBuf : Buffer 4096) (recvPos : Nat) :
    Ensures (doShutdown env.unencrypted) (other.withReceived recvBuf recvPos)
      (fun _ plain => DeliveredAs next plain) fun _ => False := by
  refine Ensures.imp (doShutdown_unencrypted (paired.idle progress down)) ?_ fun _ never => never
  rintro _ plain ⟨same, -⟩
  have never : next.net.shuttingDown = false → False :=
    fun up => absurd (down.symm.trans up) (by decide)
  exact ⟨same.trans (paired.documents.trans silent.symm), fun up => (never up).elim,
    fun up => (never up).elim⟩

end Paired

/-- A read over TLS whose one call of the consumer takes the whole chunk, or fails. -/
theorem ensures_onSocketReadSt_tls (tls : env.useTls = true) (empty : sys.net.recvPos = 0)
    (fits : chunk.length ≤ 4096) {post : Sys Engine → Prop} {fault : Fault → Prop}
    (call : Ensures (consumeCtData env chunk)
      (sys.withReceived (sys.net.recvBuf.write 0 chunk) chunk.length)
      (fun answer next =>
        answer.1 = chunk.length ∧ (∀ recvBuf, post (next.withReceived recvBuf 0)) ∨
        answer.1 < 0 ∧ ∀ recvBuf recvPos, Ensures (doShutdown env)
          (next.withReceived recvBuf recvPos) (fun _ => post) fault) fault) :
    Ensures (onSocketReadSt env chunk) sys (fun _ => post) fault := by
  have stored : sys.withReceived (sys.net.recvBuf.write sys.net.recvPos chunk)
      (sys.net.recvPos + chunk.length) =
        sys.withReceived (sys.net.recvBuf.write 0 chunk) chunk.length := by
    rw [empty, Nat.zero_add]
  have offered : (sys.net.recvBuf.write 0 chunk).slice 0 chunk.length = chunk :=
    sys.net.recvBuf.slice_write_self 0 chunk (by omega)
  unfold Ensures
  rw [onSocketReadSt_eq]
  change Ensures _ (sys.withReceived (sys.net.recvBuf.write sys.net.recvPos chunk)
    (sys.net.recvPos + chunk.length)) _ _
  rw [stored, if_pos tls, empty, Nat.zero_add, consumeLoop, consumeFrom]
  simp only [Nat.sub_zero, offered]
  rw [ensures_bind, ensures_bind, ensures_bind]
  apply call.mono
  rintro ⟨cd, left⟩ next (⟨whole, ends⟩ | ⟨failed, ends⟩)
  · have whole : cd = chunk.length := whole
    simp only [whole]
    rw [if_neg (by omega), if_neg (by omega), if_pos (.inr (by omega))]
    simp only [ensures_pure, if_true]
    rw [if_neg (by omega)]
    simp only [Int.toNat_natCast, Nat.zero_add, Nat.sub_self]
    exact ends _
  · simp only [if_pos (show cd < 0 from failed)]
    exact ends _ _

end Read

namespace RecordLayer

variable {env : Env Engine} (layer : RecordLayer env.openssl)

/-- The records that wait once `BIO_write` was given the bytes of a read. -/
def arrived (sys : Sys Engine) (chunk : Bytes) : List Bytes :=
  layer.records (env.openssl.bioWrite sys.tls.engine chunk).2

/-- A read over TLS delivers what a read of the plain path would for the plaintext of the
records that arrive with it. -/
structure DeliversAsPlain (sys : Sys Engine) (chunk : Bytes) (next : Sys Engine) : Prop where
  silent : layer.arrived sys chunk = [] → Undelivered sys next
  plain : layer.arrived sys chunk ≠ [] →
    Ensures (onSocketReadSt env.unencrypted (layer.arrived sys chunk).flatten) sys.unencrypted
      (fun _ plain => DeliveredAs next plain) fun _ => False

/-- At most one record arrives, which fits the free part of the plaintext buffer, and none
arrives before the handshake is complete. -/
def OneRecord (sys : Sys Engine) (chunk : Bytes) : Prop :=
  match layer.arrived sys chunk with
  | [] => True
  | [record] => sys.tls.handshakeComplete = true ∧ record.length ≤ 4096 - sys.tls.ptPos
  | _ => False

section Read

variable {layer} {sys : Sys Engine} {chunk : Bytes} {pos : Nat}

theorem Drained.rests {α : Type} (drained : layer.Drained pos sys) {program : Loop Engine α}
    (within : ∀ {behaviour : Behaviour Fault (Sys Engine)}, Handshaking env behaviour →
      behaviour.Within program) :
    Ensures program sys
      (fun _ next => layer.Drained pos next ∧ Undelivered sys next ∧ Steady sys next)
      fun _ => True := by
  have drains := within (layer.draining_handshaking pos) sys
  have silent := within (undelivering_handshaking env) sys
  have steady := within (steady_handshaking env) sys
  refine Ensures.imp (Ensures.and drains (Ensures.and silent steady)) ?_ fun _ _ => trivial
  rintro _ next ⟨drains, silent, steady⟩
  exact ⟨drains.1 drained, silent.1, steady.1⟩

/-- Without a record, nothing is delivered. -/
theorem Drained.consumeCtData (drained : layer.Drained pos sys) (filled : chunk ≠ [])
    (none : layer.arrived sys chunk = []) :
    Ensures (consumeCtData env chunk) sys
      (fun answer next => (answer.1 = chunk.length ∨ answer.1 < 0) ∧ layer.Drained pos next ∧
        Undelivered sys next) fun _ => True := by
  have accepted := layer.bioWrite sys.tls.engine chunk filled
  have some : chunk.length ≠ 0 := mt List.length_eq_zero_iff.mp filled
  unfold EventLoop.consumeCtData
  rw [ensures_bind, ensures_get, ensures_bind, ensures_setTls]
  have fed : layer.Drained pos (sys.withTls fun tls =>
      { tls with engine := (env.openssl.bioWrite sys.tls.engine chunk).2 }) :=
    fun up => ⟨(drained up).1, fun _ => none⟩
  simp only [accepted]
  rw [ensures_ite]
  refine ⟨fun refused => absurd refused (by omega), fun _ => ?_⟩
  rw [ensures_bind, ensures_get, ensures_ite]
  refine ⟨fun _ => ?_, fun _ => ?_⟩
  · rw [ensures_bind]
    apply (fed.rests fun handshaking => handshaking.doSslHandshake).mono
    rintro _ next ⟨still, silent, -⟩
    exact ⟨.inl rfl, still, silent.documents, silent.ptBuf, silent.ptPos⟩
  · rw [ensures_bind, ensures_get]
    obtain ⟨nothing, left⟩ := layer.read_none _ (4096 - sys.tls.ptPos) none
    have unread : layer.Drained pos (sys.recordRead env chunk) :=
      fun up => ⟨(drained up).1, fun _ => left⟩
    rw [ensures_bind, ensures_setTls, ensures_ite]
    refine ⟨fun _ => ⟨.inr (by omega), unread, rfl, rfl, rfl⟩, fun _ => ?_⟩
    rw [ensures_ite]
    refine ⟨fun some => absurd some (Int.not_lt.mpr nothing), fun _ => ?_⟩
    split
    · refine (ensures_bind ..).mpr ((unread.rests fun handshaking =>
        handshaking.flushTlsPending handshaking.doShutdown).mono ?_)
      rintro _ next ⟨still, silent, -⟩
      exact ⟨.inl rfl, still, silent.documents, silent.ptBuf, silent.ptPos⟩
    · refine (ensures_bind ..).mpr ((unread.rests fun handshaking =>
        (handshaking.getTlsError handshaking.doShutdown).within).mono ?_)
      rintro _ next ⟨still, silent, -⟩
      exact ⟨.inr (by omega), still, silent.documents, silent.ptBuf, silent.ptPos⟩

theorem draining_netOnDataRecv (data : Bytes) :
    (layer.draining pos).Within (netOnDataRecv env data) := by
  intro sys
  unfold netOnDataRecv
  split
  · exact Behaviour.Ends.pure trivial
  · dsimp only
    split
    · rename_i members parsed
      have handed : (layer.draining pos).Ends
          (liftApp (processJsonDoc env.config (.object members))) sys fun _ _ => True :=
        Ends.document (fun _ _ _ => id) fun _ _ drained => drained
      refine handed.bind fun accepted next _ => ?_
      exact Behaviour.Ends.ite (fun _ => Behaviour.Ends.pure trivial)
        fun _ => Behaviour.Ends.pure trivial
    · exact (layer.draining_failed pos _ sys).bind fun _ next _ => Behaviour.Ends.pure trivial

/-- A read of the plain path, after its loop. -/
theorem ensures_onSocketReadSt_unencrypted {record : Bytes} {ended : Bool × Buffer 4096 × Nat}
    {other : Sys Engine}
    (run : (consumeLoop (netOnDataRecv env.unencrypted)
        (sys.tls.ptBuf.write sys.tls.ptPos record) (sys.tls.ptPos + record.length)).run
      (sys.withReceived (sys.tls.ptBuf.write sys.tls.ptPos record)
        (sys.tls.ptPos + record.length)) = .ok (ended, other))
    {post : Unit → Sys Engine → Prop} {fault : Fault → Prop}
    (ends : Ensures (if ended.1 then pure () else doShutdown env.unencrypted)
      (other.withReceived ended.2.1 ended.2.2) post fault) :
    Ensures (onSocketReadSt env.unencrypted record) sys.unencrypted post fault := by
  unfold Ensures
  rw [onSocketReadSt_eq]
  exact (ensures_bind_of_run run).mpr ends

/-- The loop over the plaintext, beside the loop of the plain path. -/
theorem Drained.consumesAlike (drained : layer.Drained pos sys) {plain : Sys Engine}
    (alike : Alike sys plain) {size : Nat} (buffer : Buffer size) (count : Nat) :
    Ensures (consumeLoop (netOnDataRecv env) buffer count) sys
      (fun ended mid => layer.Drained pos mid ∧ ∃ other,
        (consumeLoop (netOnDataRecv env.unencrypted) buffer count).run plain =
          .ok (ended, other) ∧ Paired mid other) fun _ => True := by
  have drains : (layer.draining pos).Ends (consumeLoop (netOnDataRecv env) buffer count) sys
      fun _ _ => True :=
    consumeLoop_ends (fun _ _ _ _ => id) (fun data state _ => draining_netOnDataRecv data state)
      buffer count sys trivial
  have simulated : Simulated (consumeLoop (netOnDataRecv env) buffer count)
      (consumeLoop (netOnDataRecv env.unencrypted) buffer count) sys plain fun ended next last =>
        Paired next last ∧ (ended.1 = true → Alike next last) :=
    consumeLoop_simulated (fun data _ _ alike => netOnDataRecv_simulated data alike) buffer count
      alike
  refine Ensures.imp (Ensures.and drains simulated) ?_ fun _ _ => trivial
  rintro ended mid ⟨⟨kept, -⟩, ends⟩
  obtain ⟨_, other, run, rfl, paired, -⟩ := ends.exists_run
  exact ⟨kept drained, other, run, paired⟩

/-- With a record that fits, `SSL_read` returns it whole. -/
theorem ensures_consumeCtData_record {record : Bytes} (filled : chunk ≠ [])
    (one : layer.arrived sys chunk = [record]) (complete : sys.tls.handshakeComplete = true)
    (fits : record.length ≤ 4096 - sys.tls.ptPos) {post : Int × Bytes → Sys Engine → Prop}
    {fault : Fault → Prop}
    (consumed : Ensures (consumeLoop (netOnDataRecv env)
        (sys.tls.ptBuf.write sys.tls.ptPos record) (sys.tls.ptPos + record.length))
      (sys.recordRead env chunk)
      (fun ended mid => Ensures
        (if ended.1 then finishCtData env chunk.length chunk else pure (-1, chunk))
        (mid.withTls fun tls => { tls with ptBuf := ended.2.1, ptPos := ended.2.2 }) post fault)
      fault) :
    Ensures (EventLoop.consumeCtData env chunk) sys post fault := by
  have accepted := layer.bioWrite sys.tls.engine chunk filled
  have some : chunk.length ≠ 0 := mt List.length_eq_zero_iff.mp filled
  have bytes : record.length ≠ 0 := by
    apply mt List.length_eq_zero_iff.mp
    exact layer.nonempty (env.openssl.bioWrite sys.tls.engine chunk).2 record
      (by rw [show layer.records _ = [record] from one]; exact List.mem_singleton.mpr rfl)
  obtain ⟨count, plain, -⟩ := layer.read_whole _ record [] _ one fits
  unfold EventLoop.consumeCtData
  rw [ensures_bind, ensures_get, ensures_bind, ensures_setTls]
  simp only [accepted]
  rw [ensures_ite]
  refine ⟨fun refused => absurd refused (by omega), fun _ => ?_⟩
  rw [ensures_bind, ensures_get, ensures_ite]
  refine ⟨fun shaking => absurd (complete.symm.trans shaking) (by decide), fun _ => ?_⟩
  rw [ensures_bind, ensures_get, ensures_bind, ensures_setTls]
  simp only [Sys.withTls, count, plain, Int.toNat_natCast]
  rw [if_neg (by omega), if_pos (by omega), ensures_bind]
  exact consumed

variable (tls : env.useTls = true) (drained : layer.Drained 0 sys)
  (up : sys.net.shuttingDown = false) (filled : chunk ≠ []) (fits : chunk.length ≤ 4096)

include tls drained up filled fits

theorem Drained.read_nothing (none : layer.arrived sys chunk = []) :
    Ensures (onSocketReadSt env chunk) sys
      (fun _ next => layer.Drained 0 next ∧ layer.DeliversAsPlain sys chunk next)
      fun _ => True := by
  have delivers : ∀ {next : Sys Engine}, Undelivered sys next →
      layer.DeliversAsPlain sys chunk next :=
    fun silent => ⟨fun _ => silent, fun some => absurd none some⟩
  have stored : layer.Drained chunk.length
      (sys.withReceived (sys.net.recvBuf.write 0 chunk) chunk.length) :=
    fun up => ⟨rfl, (drained up).2⟩
  apply ensures_onSocketReadSt_tls tls (drained up).1 fits
  apply (stored.consumeCtData filled none).mono
  rintro answer next ⟨whole | failed, still, silent⟩
  · refine .inl ⟨whole, fun recvBuf => ⟨fun up => ⟨rfl, (still up).2⟩, delivers ?_⟩⟩
    exact ⟨silent.documents, silent.ptBuf, silent.ptPos⟩
  · refine .inr ⟨failed, fun recvBuf recvPos => ?_⟩
    refine Ensures.imp (undelivering_core.doShutdown _) ?_ fun _ _ => trivial
    rintro _ last ⟨quiet, down⟩
    exact ⟨layer.drained_of_down down, delivers ⟨quiet.documents.trans silent.documents,
      quiet.ptBuf.trans silent.ptBuf, quiet.ptPos.trans silent.ptPos⟩⟩

theorem Drained.read_record {record : Bytes} (one : layer.arrived sys chunk = [record])
    (complete : sys.tls.handshakeComplete = true)
    (room : record.length ≤ 4096 - sys.tls.ptPos) :
    Ensures (onSocketReadSt env chunk) sys
      (fun _ next => layer.Drained 0 next ∧ layer.DeliversAsPlain sys chunk next)
      fun _ => True := by
  have delivers : ∀ {next : Sys Engine},
      Ensures (onSocketReadSt env.unencrypted record) sys.unencrypted
        (fun _ plain => DeliveredAs next plain) (fun _ => False) →
      layer.DeliversAsPlain sys chunk next := by
    refine fun plain => ⟨fun none => absurd (none.symm.trans one) (by simp), fun _ => ?_⟩
    rw [one, List.flatten_singleton]
    exact plain
  have read : layer.Drained chunk.length
      ((sys.withReceived (sys.net.recvBuf.write 0 chunk) chunk.length).recordRead env chunk) :=
    fun _ => ⟨rfl, fun _ => (layer.read_whole _ record [] _ one room).2.2⟩
  have alike : Alike
      ((sys.withReceived (sys.net.recvBuf.write 0 chunk) chunk.length).recordRead env chunk)
      (sys.withReceived (sys.tls.ptBuf.write sys.tls.ptPos record)
        (sys.tls.ptPos + record.length)) := ⟨rfl, rfl, rfl⟩
  apply ensures_onSocketReadSt_tls tls (drained up).1 fits
  have offered : layer.arrived
      (sys.withReceived (sys.net.recvBuf.write 0 chunk) chunk.length) chunk = [record] := one
  apply ensures_consumeCtData_record filled offered complete room
  apply (read.consumesAlike alike _ _).mono
  rintro ⟨good, ptBuf, ptPos⟩ mid ⟨still, other, run, paired⟩
  have stored : layer.Drained chunk.length
      (mid.withTls fun tls => { tls with ptBuf := ptBuf, ptPos := ptPos }) := still
  rw [ensures_ite]
  refine ⟨fun isGood => ?_, fun isBad => ?_⟩
  · refine (ensures_bind ..).mpr ((stored.rests fun handshaking =>
      handshaking.flushTlsPending handshaking.doShutdown).mono ?_)
    rintro _ next ⟨drained, silent, steady⟩
    refine .inl ⟨rfl, fun recvBuf => ⟨fun up => ⟨rfl, (drained up).2⟩, delivers ?_⟩⟩
    apply ensures_onSocketReadSt_unencrypted run
    rw [if_pos isGood]
    exact paired.goesOn ⟨silent.documents, silent.ptBuf, silent.ptPos⟩
      (steady.trans (.of_frame rfl rfl rfl))
  · refine .inr ⟨show (-1 : Int) < 0 by decide, fun recvBuf recvPos => ?_⟩
    apply (ensures_doShutdown_silent _).mono
    rintro _ next ⟨down, silent, steady⟩
    refine ⟨layer.drained_of_down down, delivers (ensures_onSocketReadSt_unencrypted run ?_)⟩
    rw [if_neg isBad]
    exact paired.shutsDown silent.documents steady.shutdown down _ _

theorem Drained.read (one : layer.OneRecord sys chunk) :
    Ensures (onSocketReadSt env chunk) sys
      (fun _ next => layer.Drained 0 next ∧ layer.DeliversAsPlain sys chunk next)
      fun _ => True := by
  unfold OneRecord at one
  split at one
  · rename_i none
    exact drained.read_nothing tls up filled fits none
  · rename_i record arrives
    exact drained.read_record tls up filled fits arrives one.1 one.2
  · exact one.elim

end Read

/-! ## Runs -/

/-- The condition on a step: a read of a connection that is not being shut down brings at
most one record, at its time. -/
def OneRecordARead (sys : Sys Engine) : Event → Prop
  | .read chunk => sys.net.shuttingDown = false → layer.OneRecord sys chunk
  | _ => True

instance (sys : Sys Engine) (chunk : Bytes) : Decidable (layer.OneRecord sys chunk) := by
  unfold OneRecord
  split <;> infer_instance

instance (sys : Sys Engine) : (event : Event) → Decidable (layer.OneRecordARead sys event)
  | .read _ => inferInstanceAs (Decidable (_ → _))
  | .heartbeat | .dnsResolved _ _ _ | .connected _ | .readError _ | .written _ _ | .shutDown
  | .closed | .foundResult _ => .isTrue trivial

/-- No record waits while the connection goes on, and every read that meets the condition
delivers as the plain path would. -/
structure ReadsRecords (sys : Sys Engine) : Prop where
  none : sys.net.shuttingDown = false → sys.uv.reading = true →
    layer.records sys.tls.engine = []
  delivers : ∀ input next chunk, (machine env).Step sys input next →
    input.event = .read chunk → sys.net.shuttingDown = false → layer.OneRecord sys chunk →
      layer.DeliversAsPlain (sys.answering input) chunk next

section Runs

variable {layer} {sys : Sys Engine} (tls : env.useTls = true)

/-- A read after the connection failed changes nothing of that. -/
theorem drained_read_down (chunk : Bytes) (attached : Attached env sys)
    (reading : sys.uv.reading = true) (down : sys.net.shuttingDown = true) :
    Ensures (onSocketReadSt env chunk) sys (fun _ next => layer.Drained 0 next)
      fun _ => True := by
  have receiving : Receiving env sys := ⟨attached.coherent, attached.reading reading⟩
  have ends : steady.Ends (onSocketReadSt env chunk) sys fun _ _ => True := by
    refine Behaviour.Ends.step rfl (.of_frame rfl rfl rfl) ?_
    refine Behaviour.Ends.bind (steady_closed.onSocketRead _ ⟨receiving.1, receiving.2⟩) ?_
    intro good next _
    exact Behaviour.Ends.ite (fun _ => Behaviour.Ends.pure trivial)
      fun _ => steady_core.doShutdown.within next
  refine Ensures.imp ends ?_ fun _ _ => trivial
  rintro _ next ⟨change, -⟩
  rcases change.shutdown with ⟨same, -⟩ | ⟨up, -⟩
  · exact layer.drained_of_down (same.trans down)
  · exact absurd (down.symm.trans up) (by decide)

include tls

theorem Drained.callback (drained : layer.Drained 0 sys) (attached : Attached env sys)
    (event : Event) (enabled : Enabled sys event) (one : layer.OneRecordARead sys event) :
    Ensures (callback env event) sys (fun _ next => layer.Drained 0 next) fun _ => True := by
  have keeps : ∀ {program : Loop Engine Unit},
      (layer.draining 0).Ends program sys (fun _ _ => True) →
      Ensures program sys (fun _ next => layer.Drained 0 next) fun _ => True :=
    fun ends => Ensures.imp ends (fun _ _ ended => ended.1 drained) fun _ _ => trivial
  cases event with
  | heartbeat => exact keeps (layer.draining_onHeartbeat sys)
  | dnsResolved status res rand => exact keeps (layer.draining_onDnsResolvedSt status res rand sys)
  | connected status => exact keeps (draining_onConnnectSt attached tls status enabled)
  | read chunk =>
      obtain ⟨reading, some, fits⟩ := enabled
      by_cases down : sys.net.shuttingDown = true
      · exact drained_read_down chunk attached reading down
      · have up : sys.net.shuttingDown = false := by simpa using down
        have filled : chunk ≠ [] := List.ne_nil_of_length_pos some
        exact (drained.read tls up filled (by omega) (one up)).mono fun _ _ ended => ended.1
  | readError error => exact keeps (layer.draining_onSocketError 0 error sys)
  | written idx status => exact keeps (layer.draining_onSocketWriteSt 0 idx status sys)
  | shutDown => exact keeps (draining_onShutdownSt attached enabled)
  | closed => exact keeps (draining_onSocketClosed attached enabled.1)
  | foundResult res => exact keeps (layer.draining_doSendResult 0 res sys)

theorem Drained.readsRecords (drained : layer.Drained 0 sys) : layer.ReadsRecords sys where
  none := fun up reading => (drained up).2 reading
  delivers := by
    intro input next chunk stepped isRead up one
    obtain ⟨enabled, handled⟩ := step_enabled stepped
    have ran := run_of_handle handled
    rw [isRead] at enabled ran
    have filled : chunk ≠ [] := List.ne_nil_of_length_pos enabled.2.1
    have fits : chunk.length ≤ 4096 := by
      have room := enabled.2.2
      omega
    have admitted : layer.Drained 0 (sys.answering input) := drained
    exact ((admitted.read tls up filled fits one).of_run ran).2

end Runs

/-- In every run in which no read of a live connection brings more than one record, or one
that does not fit the plaintext buffer, or one before the handshake is complete, no record is
ever left in OpenSSL, and the reads deliver what they would over the plain path. -/
theorem reads_records (env : Env Engine) (layer : RecordLayer env.openssl)
    (tls : env.useTls = true) (sys : Sys Engine)
    (reachable : (machine env).ReachableWhen
      (fun before input _ => layer.OneRecordARead before input.event) sys) :
    layer.ReadsRecords sys := by
  have initially : ∀ start, (machine env).Initial start → layer.Drained 0 start := by
    intro start initial up
    refine ⟨initial.nothingReceived, fun on => ?_⟩
    exact absurd (on.symm.trans initial.noCallback.2.2.2.1) (by decide)
  refine Drained.readsRecords tls (reachable.invariant initially ?_)
  intro before input next reachable drained stepped one
  obtain ⟨enabled, handled⟩ := step_enabled stepped
  have attached : Attached env (before.answering input) :=
    { reachable_attached reachable with }
  have admitted : layer.Drained 0 (before.answering input) := drained
  have allowed : layer.OneRecordARead (before.answering input) input.event := by
    cases input with
    | mk event => cases event <;> exact one
  exact (admitted.callback tls attached input.event (Enabled.answering enabled) allowed).of_run
    (run_of_handle handled)

end RecordLayer

/-! ## A sample record layer -/

/-- A record layer whose records end at a zero byte; the first one is the handshake of the
server. -/
structure Wire where
  shaken : Bool
  started : Bytes
  records : List { record : Bytes // record ≠ [] }

namespace Wire

def empty : Wire := ⟨false, [], []⟩

def feed (wire : Wire) (byte : UInt8) : Wire :=
  if byte ≠ 0 then
    { wire with started := wire.started ++ [byte] }
  else if wire.shaken = false then
    { wire with shaken := true, started := [] }
  else if filled : wire.started ≠ [] then
    { wire with started := [], records := wire.records ++ [⟨wire.started, filled⟩] }
  else wire

def read (wire : Wire) (room : Nat) : Int × Bytes × Wire :=
  match wire.records with
  | [] => (-1, [], wire)
  | record :: rest =>
      if fits : record.1.length ≤ room then
        (record.1.length, record.1, { wire with records := rest })
      else
        (room, record.1.take room,
          { wire with
            records := ⟨record.1.drop room, mt List.drop_eq_nil_iff.mp fits⟩ :: rest })

end Wire

def OpenSsl.wire : OpenSsl Wire where
  newSession := fun _ => (true, .empty)
  newBioPair := fun wire => (true, wire)
  doHandshake := fun wire => (if wire.shaken then 1 else -1, wire)
  getError := fun _ _ => .wantReadOrWrite
  peerFingerprint := fun wire => (some [], wire)
  write := fun wire chunk => (chunk.length, wire)
  read := Wire.read
  shutdown := id
  bioPending := fun _ => 0
  bioWrite := fun wire data => (data.length, data.foldl Wire.feed wire)
  bioRead := fun wire _ => (-1, [], wire)
  errorText := fun wire => ([], wire)

def Env.wire : Env Wire where
  config := Env.sample.config
  useTls := true
  openssl := .wire
  uvStrerror := Env.sample.uvStrerror
  memory := fun _ _ => 0
  stack := 1
  patience := 2

def Wire.layer : RecordLayer Env.wire.openssl where
  records := fun wire => wire.records.map Subtype.val
  nonempty := by
    intro wire record member
    obtain ⟨waiting, -, rfl⟩ := List.mem_map.mp member
    exact waiting.2
  newSession := fun _ _ => rfl
  newBioPair := fun _ => rfl
  doHandshake := fun _ => rfl
  peerFingerprint := fun _ => rfl
  errorText := fun _ => rfl
  write := fun _ _ => rfl
  bioRead := fun _ _ => rfl
  bioWrite := fun _ _ _ => rfl
  read_none := by
    intro wire room none
    have empty : wire.records = [] := List.map_eq_nil_iff.mp none
    simp only [Env.wire, OpenSsl.wire, Wire.read, empty]
    exact ⟨by decide, rfl⟩
  read_whole := by
    intro wire record rest room some fits
    obtain ⟨first, others, split, rfl, rfl⟩ := List.map_eq_cons_iff.mp some
    simp only [Env.wire, OpenSsl.wire, Wire.read, split, dif_pos fits, and_self]

def Sys.wire : Sys Wire :=
  { Sys.start with
    tls :=
      { ssl := false
        bio := false
        handshakeComplete := false
        ptBuf := default
        ptPos := 0
        engine := .empty } }

theorem Sys.wire_initial : Initial Sys.wire :=
  { Sys.start_initial with noSession := ⟨rfl, rfl, rfl⟩ }

/-- A connection whose handshake is completed by its first read. -/
def shakenSession : List Input :=
  [Event.heartbeat.at 20000, (Event.dnsResolved 0 [⟨.inet, []⟩] 0).at 20010,
    (Event.connected 0).at 20020, (Event.read [0]).at 20030]

/-- A job in one record. -/
def jobRecord : Input :=
  (Event.read (JobMessage.sample.text ++ [10, 0])).at 20040

theorem reads_records_jobRecord :
    ∃ sys, (machine .wire).Reachable sys ∧ (documents sys.app.log).length = 1 ∧
      Wire.layer.ReadsRecords sys := by
  have executed := Machine.execute_reachableWhen Sys.wire_initial (step .wire)
    (fun sys input => Wire.layer.OneRecordARead sys input.event)
    (shakenSession ++ [jobRecord]) (fun sys => (documents sys.app.log).length = 1)
    (by decide +kernel)
  exact ⟨_, executed.1.reachable, executed.2,
    RecordLayer.reads_records .wire Wire.layer rfl _ executed.1⟩

/-- A job in two records that arrive together. -/
def jobInTwo : Bytes :=
  JobMessage.sample.text.take 40 ++ 0 :: JobMessage.sample.text.drop 40 ++ [10, 0]

/-- How many documents the plain path has handed over after a read. -/
def plainDocuments (sys : Sys Wire) (plaintext : Bytes) : Option Nat :=
  match (onSocketReadSt Env.wire.unencrypted plaintext).run sys.unencrypted with
  | .error _ => none
  | .ok (_, plain) => some (documents plain.app.log).length

/-- The second record waits, and with it the job that the plain path would deliver. -/
theorem second_record_waits :
    ∃ sys next, (machine .wire).Reachable sys ∧
      (machine .wire).Step sys ((Event.read jobInTwo).at 20040) next ∧
      (next.uv.reading = true ∧ next.net.shuttingDown = false) ∧
      Wire.layer.records next.tls.engine ≠ [] ∧
      ¬Wire.layer.DeliversAsPlain (sys.answering ((Event.read jobInTwo).at 20040)) jobInTwo
        next := by
  have executed := Machine.execute_reachable Sys.wire_initial (step .wire) shakenSession
    (fun sys => (step .wire sys ((Event.read jobInTwo).at 20040)).any (fun next =>
        decide ((next.uv.reading = true ∧ next.net.shuttingDown = false) ∧
          Wire.layer.records next.tls.engine ≠ [] ∧ documents next.app.log = [])) = true ∧
      let before := sys.answering ((Event.read jobInTwo).at 20040)
      Wire.layer.arrived before jobInTwo ≠ [] ∧
        plainDocuments before (Wire.layer.arrived before jobInTwo).flatten = some 1)
    (by decide +kernel)
  generalize Machine.execute _ _ _ = sys at executed
  obtain ⟨reachable, reads, arrives, plain⟩ := executed
  refine ⟨sys, ?_⟩
  generalize (Event.read jobInTwo).at 20040 = input at *
  generalize jobInTwo = chunk at *
  cases stepped : step .wire sys input with
  | none => simp [stepped] at reads
  | some next =>
      have outcome : (next.uv.reading = true ∧ next.net.shuttingDown = false) ∧
          Wire.layer.records next.tls.engine ≠ [] ∧ documents next.app.log = [] := by
        simpa [stepped] using reads
      refine ⟨next, reachable, stepped, outcome.1, outcome.2.1, fun delivers => ?_⟩
      obtain ⟨_, last, ran, delivered⟩ := (delivers.plain arrives).exists_run
      have one : (documents last.app.log).length = 1 := by
        simpa only [plainDocuments, ran, Option.some.injEq] using plain
      rw [delivered.documents, outcome.2.2] at one
      cases one

end EpicMiner.EventLoop
