import EpicMiner.Library.Machine
import EpicMiner.EventLoop.Turns

/-!
Owns what `consume_loop` does with any consumer: over a sequence of reads, the bytes
that were consumed and the bytes in the buffer are the bytes received. The calls of the
consumer are recorded beside its state; `consumeLoop_recorded` says that the record
changes nothing.
-/

namespace EpicMiner.EventLoop

open EpicMiner.Library
open EpicMiner.Library.Program
open EpicMiner.Data

/-! ## Consumers -/

/-- A consumer of `data_consumer_t`: every call answers -1 or a count of bytes, and leaves
the bytes behind the count as they were. -/
structure Consumer (σ : Type) where
  consume : Bytes → Program Fault σ (Int × Bytes)
  answers : ∀ data state, ∃ cd left next,
    (consume data).run state = .ok ((cd, left), next) ∧ left.length = data.length ∧
      (cd = -1 ∨ 0 ≤ cd ∧ cd.toNat ≤ data.length ∧ left.drop cd.toNat = data.drop cd.toNat)

/-- A call of a consumer, with the bytes it was given. -/
structure ConsumerCall where
  data : Bytes
  cd : Int
deriving DecidableEq

namespace ConsumerCall

def Failed (call : ConsumerCall) : Prop :=
  call.cd = -1

/-- The bytes that a call took, none when it failed. -/
def taken (call : ConsumerCall) : Bytes :=
  call.data.take call.cd.toNat

end ConsumerCall

/-- The bytes taken by a sequence of calls. -/
def consumedBytes (calls : List ConsumerCall) : Bytes :=
  calls.flatMap ConsumerCall.taken

variable {σ : Type} {size : Nat}

/-- A consumer beside the record of its calls. -/
def recorded (consume : Bytes → Program Fault σ (Int × Bytes)) (data : Bytes) :
    Program Fault (σ × List ConsumerCall) (Int × Bytes) := fun (state, calls) =>
  match (consume data).run state with
  | .error failure => .error failure
  | .ok ((cd, left), next) => .ok ((cd, left), (next, calls ++ [⟨data, cd⟩]))

/-- An end without the record. -/
def unrecorded {α : Type} :
    Except Fault (α × σ × List ConsumerCall) → Except Fault (α × σ)
  | .error failure => .error failure
  | .ok (value, state, _) => .ok (value, state)

theorem unrecorded_run_bind {α β : Type}
    {program : Program Fault (σ × List ConsumerCall) α} {plain : Program Fault σ α}
    {rest : α → Program Fault (σ × List ConsumerCall) β} {plainRest : α → Program Fault σ β}
    (same : ∀ state calls, unrecorded (program.run (state, calls)) = plain.run state)
    (sameRest : ∀ value state calls,
      unrecorded ((rest value).run (state, calls)) = (plainRest value).run state)
    (state : σ) (calls : List ConsumerCall) :
    unrecorded ((program >>= rest).run (state, calls)) = (plain >>= plainRest).run state := by
  rw [StateT.run_bind, StateT.run_bind, ← same state calls]
  cases program.run (state, calls) with
  | error failure => rfl
  | ok ended =>
      obtain ⟨value, next, more⟩ := ended
      exact sameRest value next more

theorem unrecorded_recorded (consume : Bytes → Program Fault σ (Int × Bytes)) (data : Bytes)
    (state : σ) (calls : List ConsumerCall) :
    unrecorded ((recorded consume data).run (state, calls)) = (consume data).run state := by
  have run : (recorded consume data).run (state, calls) =
      match (consume data).run state with
      | .error failure => .error failure
      | .ok ((cd, left), next) => .ok ((cd, left), (next, calls ++ [⟨data, cd⟩])) := rfl
  rw [run]
  cases (consume data).run state with
  | error failure => rfl
  | ok ended => rfl

theorem consumeFrom_recorded (consume : Bytes → Program Fault σ (Int × Bytes)) (recvPos : Nat)
    (fuel : Nat) (buffer : Buffer size) (consumed : Nat) (state : σ)
    (calls : List ConsumerCall) :
    unrecorded ((consumeFrom (recorded consume) recvPos fuel buffer consumed).run
      (state, calls)) = (consumeFrom consume recvPos fuel buffer consumed).run state := by
  induction fuel generalizing buffer consumed state calls with
  | zero => rfl
  | succ fuel inductionHypothesis =>
      refine unrecorded_run_bind (unrecorded_recorded consume _) ?_ state calls
      rintro ⟨cd, left⟩ next more
      by_cases failed : cd < 0
      · simp only [if_pos failed]
        rfl
      by_cases beyond : recvPos - consumed < cd.toNat
      · simp only [if_neg failed, if_pos beyond]
        rfl
      by_cases ended : cd = 0 ∨ recvPos = consumed + cd.toNat
      · simp only [if_neg failed, if_neg beyond, if_pos ended]
        rfl
      · simp only [if_neg failed, if_neg beyond, if_neg ended]
        exact inductionHypothesis _ _ next more

/-- The loop does the same with and without the record. -/
theorem consumeLoop_recorded (consume : Bytes → Program Fault σ (Int × Bytes))
    (buffer : Buffer size) (recvPos : Nat) (state : σ) (calls : List ConsumerCall) :
    unrecorded ((consumeLoop (recorded consume) buffer recvPos).run (state, calls)) =
      (consumeLoop consume buffer recvPos).run state := by
  refine unrecorded_run_bind (consumeFrom_recorded consume recvPos (recvPos + 1) buffer 0) ?_
    state calls
  rintro ⟨good, after, consumed⟩ next more
  cases good with
  | false => rfl
  | true =>
      by_cases moves : consumed < recvPos ∧ 0 < consumed
      · simp only [if_true, if_pos moves]
        rfl
      · simp only [if_true, if_neg moves]
        rfl

/-! ## One loop -/

theorem slice_drop (buffer : Buffer size) (offset length count : Nat) :
    (buffer.slice offset length).drop count = buffer.slice (offset + count) (length - count) := by
  simp [Buffer.slice, List.drop_take]

theorem slice_write_drop (buffer : Buffer size) (offset count : Nat) (source : Bytes)
    (fits : offset + source.length ≤ size) :
    (buffer.write offset source).slice (offset + count) (source.length - count) =
      source.drop count := by
  rw [← slice_drop, buffer.slice_write_self offset source fits]

/-- One round of the loop. -/
theorem consumeFrom_round {consume : Bytes → Program Fault σ (Int × Bytes)} {recvPos fuel : Nat}
    {buffer : Buffer size} {consumed : Nat} {state next : σ} {cd : Int} {left : Bytes}
    (call : (consume (buffer.slice consumed (recvPos - consumed))).run state =
      .ok ((cd, left), next)) :
    (consumeFrom consume recvPos (fuel + 1) buffer consumed).run state =
      (if cd < 0 then pure (false, buffer.write consumed left, consumed)
      else if recvPos - consumed < cd.toNat then throw (.assertion .consumedFits)
      else if cd = 0 ∨ recvPos = consumed + cd.toNat then
        pure (true, buffer.write consumed left, consumed + cd.toNat)
      else
        consumeFrom consume recvPos fuel (buffer.write consumed left)
          (consumed + cd.toNat)).run next := by
  rw [consumeFrom, StateT.run_bind, call]
  rfl

/-- The calls of a loop: no call failed and the bytes taken are followed by what is left, or
the last call failed. -/
inductive Looped (pending : Bytes) (calls : List ConsumerCall) : Bool → Bytes → Prop where
  | taken (rest : Bytes) (good : ∀ call ∈ calls, ¬call.Failed)
      (exact : consumedBytes calls ++ rest = pending) : Looped pending calls true rest
  | failed (rest : Bytes) (bad : ∃ call ∈ calls, call.Failed) : Looped pending calls false rest

theorem Looped.cons {pending rest : Bytes} {calls : List ConsumerCall} {good : Bool} {cd : Nat}
    (looped : Looped (pending.drop cd) calls good rest) :
    Looped pending (⟨pending, cd⟩ :: calls) good rest := by
  cases looped with
  | taken rest goods exact =>
      refine .taken rest ?_ ?_
      · intro call member
        rcases List.mem_cons.mp member with rfl | member
        · change ¬((cd : Int) = -1)
          omega
        · exact goods call member
      · change pending.take cd ++ consumedBytes calls ++ rest = pending
        rw [List.append_assoc, exact, List.take_append_drop]
  | failed rest bad =>
      obtain ⟨call, member, failed⟩ := bad
      exact .failed rest ⟨call, .tail _ member, failed⟩

theorem run_recorded {consumer : Consumer σ} {data left : Bytes} {state next : σ} {cd : Int}
    (call : (consumer.consume data).run state = .ok ((cd, left), next))
    (calls : List ConsumerCall) :
    (recorded consumer.consume data).run (state, calls) =
      .ok ((cd, left), (next, calls ++ [⟨data, cd⟩])) := by
  have run : (recorded consumer.consume data).run (state, calls) =
      match (consumer.consume data).run state with
      | .error failure => .error failure
      | .ok ((cd, left), next) => .ok ((cd, left), (next, calls ++ [⟨data, cd⟩])) := rfl
  rw [run, call]

/-- The rounds of the loop end: every round but the last takes a byte. -/
theorem consumeFrom_looped (consumer : Consumer σ) {recvPos : Nat} (fits : recvPos ≤ size)
    (fuel : Nat) (buffer : Buffer size) (consumed : Nat) (within : consumed ≤ recvPos)
    (enough : recvPos - consumed < fuel) (state : σ) (calls : List ConsumerCall) :
    ∃ good after consumed' next more,
      (consumeFrom (recorded consumer.consume) recvPos fuel buffer consumed).run (state, calls) =
        .ok ((good, after, consumed'), (next, calls ++ more)) ∧ consumed' ≤ recvPos ∧
      Looped (buffer.slice consumed (recvPos - consumed)) more good
        (after.slice consumed' (recvPos - consumed')) := by
  induction fuel generalizing buffer consumed state calls with
  | zero => omega
  | succ fuel inductionHypothesis =>
      have length : (buffer.slice consumed (recvPos - consumed)).length = recvPos - consumed := by
        have sized := buffer.sized
        simp [Buffer.slice]
        omega
      obtain ⟨cd, left, next, call, sameLength, answer⟩ :=
        consumer.answers (buffer.slice consumed (recvPos - consumed)) state
      have recordedCall := run_recorded call calls
      rw [consumeFrom_round recordedCall]
      rcases answer with rfl | ⟨positive, counted, kept⟩
      · refine ⟨false, buffer.write consumed left, consumed, next, _, rfl, within, ?_⟩
        exact .failed _ ⟨⟨_, -1⟩, List.mem_singleton.mpr rfl, rfl⟩
      · obtain ⟨count, rfl⟩ := Int.eq_ofNat_of_zero_le positive
        rw [Int.toNat_natCast] at counted kept
        have behind : (buffer.write consumed left).slice (consumed + count)
            (recvPos - (consumed + count)) =
              (buffer.slice consumed (recvPos - consumed)).drop count := by
          rw [← kept, ← slice_write_drop buffer consumed count left (by omega), sameLength, length,
            Nat.sub_sub]
        by_cases ended : (count : Int) = 0 ∨ recvPos = consumed + count
        · refine ⟨true, buffer.write consumed left, consumed + count, next,
            [⟨buffer.slice consumed (recvPos - consumed), count⟩], ?_, by omega, ?_⟩
          · rw [if_neg (by omega), Int.toNat_natCast, if_neg (by omega), if_pos ended]
            rfl
          · rw [behind]
            exact Looped.cons (.taken _ (by simp) rfl)
        · obtain ⟨good, after, consumed', last, more, run, bounded, looped⟩ :=
            inductionHypothesis (buffer.write consumed left) (consumed + count)
              (by omega) (by omega) next
              (calls ++ [⟨buffer.slice consumed (recvPos - consumed), count⟩])
          refine ⟨good, after, consumed', last,
            ⟨buffer.slice consumed (recvPos - consumed), count⟩ :: more, ?_, bounded, ?_⟩
          · rw [List.append_assoc] at run
            rw [if_neg (by omega), Int.toNat_natCast, if_neg (by omega), if_neg ended]
            exact run
          · rw [behind] at looped
            exact looped.cons

/-- What one call of `consume_loop` leaves behind. -/
structure LoopEnd (buffer : Buffer size) (recvPos : Nat) (calls : List ConsumerCall)
    (good : Bool) (after : Buffer size) (recvPos' : Nat) : Prop where
  bounded : recvPos' ≤ recvPos
  exact : (∀ call ∈ calls, ¬call.Failed) →
    consumedBytes calls ++ after.slice 0 recvPos' = buffer.slice 0 recvPos
  kept : (∃ call ∈ calls, call.Failed) → recvPos' = recvPos
  answer : good = true ↔ ∀ call ∈ calls, ¬call.Failed

theorem LoopEnd.of_failed {buffer after : Buffer size} {recvPos : Nat} {calls : List ConsumerCall}
    (bad : ∃ call ∈ calls, call.Failed) : LoopEnd buffer recvPos calls false after recvPos where
  bounded := Nat.le_refl recvPos
  exact := fun none => by
    obtain ⟨call, member, failed⟩ := bad
    exact absurd failed (none call member)
  kept := fun _ => rfl
  answer := by
    simp only [Bool.false_eq_true, false_iff]
    push Not
    exact bad

theorem LoopEnd.of_taken {buffer after : Buffer size} {recvPos left : Nat}
    {calls : List ConsumerCall} (good : ∀ call ∈ calls, ¬call.Failed) (bounded : left ≤ recvPos)
    (exact : consumedBytes calls ++ after.slice 0 left = buffer.slice 0 recvPos) :
    LoopEnd buffer recvPos calls true after left where
  bounded := bounded
  exact := fun _ => exact
  kept := fun ⟨call, member, failed⟩ => absurd failed (good call member)
  answer := iff_of_true rfl good

/-- The bytes left are at the front of the buffer, moved there or not. -/
theorem slice_moved (after : Buffer size) {recvPos consumed : Nat} (fits : recvPos ≤ size)
    (bounded : consumed ≤ recvPos) :
    (if consumed < recvPos ∧ 0 < consumed then
      after.write 0 (after.slice consumed (recvPos - consumed))
    else after).slice 0 (recvPos - consumed) = after.slice consumed (recvPos - consumed) := by
  split
  · have length : (after.slice consumed (recvPos - consumed)).length = recvPos - consumed := by
      have sized := after.sized
      simp [Buffer.slice]
      omega
    have written := after.slice_write_self 0 (after.slice consumed (recvPos - consumed)) (by omega)
    rwa [length] at written
  · by_cases all : consumed = recvPos
    · simp [all, Buffer.slice]
    · rw [show consumed = 0 by omega]

theorem consumeLoop_loopEnd (consumer : Consumer σ) {recvPos : Nat} (fits : recvPos ≤ size)
    (buffer : Buffer size) (state : σ) (calls : List ConsumerCall) :
    ∃ good after recvPos' next more,
      (consumeLoop (recorded consumer.consume) buffer recvPos).run (state, calls) =
        .ok ((good, after, recvPos'), (next, calls ++ more)) ∧
      LoopEnd buffer recvPos more good after recvPos' := by
  obtain ⟨good, after, consumed, next, more, run, bounded, looped⟩ :=
    consumeFrom_looped consumer fits (recvPos + 1) buffer 0 (by omega) (by omega)
      state calls
  have rounds : (consumeLoop (recorded consumer.consume) buffer recvPos).run (state, calls) =
      (if good then
        if consumed < recvPos ∧ 0 < consumed then
          pure (true, after.write 0 (after.slice consumed (recvPos - consumed)),
            recvPos - consumed)
        else pure (true, after, recvPos - consumed)
      else pure (false, after, recvPos) :
        Program Fault (σ × List ConsumerCall) (Bool × Buffer size × Nat)).run
        (next, calls ++ more) := by
    rw [consumeLoop, StateT.run_bind, run]
    rfl
  rw [Nat.sub_zero] at looped
  rw [rounds]
  have moved := slice_moved after fits bounded
  generalize after.slice consumed (recvPos - consumed) = left at looped moved ⊢
  cases looped with
  | failed _ bad => exact ⟨false, after, recvPos, next, more, rfl, .of_failed bad⟩
  | taken _ good exact =>
      rw [← moved] at exact
      refine ⟨true, _, recvPos - consumed, next, more, ?_, .of_taken good (Nat.sub_le _ _) exact⟩
      rw [if_pos rfl]
      split <;> rfl

/-! ## A sequence of reads -/

/-- A connection with any consumer: the members of the interface, the consumer's state, and
beside them the calls of the consumer and the bytes received so far. -/
structure Reception (σ : Type) where
  recvBuf : Buffer 4096
  recvPos : Nat
  state : σ
  calls : List ConsumerCall
  received : Bytes

namespace Reception

/-- `alloc_recv_buffer`: libuv stores at most what it was offered. -/
def Offers (reception : Reception σ) (chunk : Bytes) : Prop :=
  0 < chunk.length ∧ chunk.length ≤ 4096 - reception.recvPos

/-- `on_socket_read_st` up to the answer of the consume loop. -/
def read (consume : Bytes → Program Fault σ (Int × Bytes)) (chunk : Bytes)
    (reception : Reception σ) : Except Fault (Reception σ) :=
  match (consumeLoop (recorded consume) (reception.recvBuf.write reception.recvPos chunk)
      (reception.recvPos + chunk.length)).run (reception.state, reception.calls) with
  | .error failure => .error failure
  | .ok ((_, recvBuf, recvPos), (state, calls)) =>
      .ok ⟨recvBuf, recvPos, state, calls, reception.received ++ chunk⟩

/-- The same read of the interface itself: buffer, position and consumer after it. -/
theorem read_eq (consume : Bytes → Program Fault σ (Int × Bytes)) (chunk : Bytes)
    (reception : Reception σ) :
    (reception.read consume chunk).map (fun next => (next.recvBuf, next.recvPos, next.state)) =
      ((consumeLoop consume (reception.recvBuf.write reception.recvPos chunk)
        (reception.recvPos + chunk.length)).run reception.state).map
        fun ended => (ended.1.2.1, ended.1.2.2, ended.2) := by
  rw [← consumeLoop_recorded consume _ _ reception.state reception.calls, read]
  cases (consumeLoop (recorded consume) (reception.recvBuf.write reception.recvPos chunk)
      (reception.recvPos + chunk.length)).run (reception.state, reception.calls) with
  | error failure => rfl
  | ok ended => rfl

end Reception

/-- A read of the event loop is a read with the consumer of its interface, after which a
failed call shuts the connection down. -/
theorem onSocketReadSt_eq {Engine : Type} (env : Env Engine) (chunk : Bytes)
    (sys : Sys Engine) :
    (onSocketReadSt env chunk).run sys =
      (consumeLoop (if env.useTls then consumeCtData env else netOnDataRecv env)
        (sys.net.recvBuf.write sys.net.recvPos chunk) (sys.net.recvPos + chunk.length) >>=
        fun (good, recvBuf, recvPos) => do
          setNet fun net => { net with recvBuf := recvBuf, recvPos := recvPos }
          if good then return else doShutdown env).run
        { sys with
          net :=
            { sys.net with
              recvBuf := sys.net.recvBuf.write sys.net.recvPos chunk
              recvPos := sys.net.recvPos + chunk.length } } := by
  have read : onSocketReadSt env chunk = (do
      setNet fun net =>
        { net with
          recvBuf := net.recvBuf.write net.recvPos chunk
          recvPos := net.recvPos + chunk.length }
      let net := (← get).net
      let (good, recvBuf, recvPos) ←
        consumeLoop (if env.useTls then consumeCtData env else netOnDataRecv env)
          net.recvBuf net.recvPos
      setNet fun net => { net with recvBuf := recvBuf, recvPos := recvPos }
      if good then return else doShutdown env) := by
    unfold onSocketReadSt onSocketRead
    simp only [bind_assoc, pure_bind]
  rw [read]
  rfl

def receptionMachine (consumer : Consumer σ) : Machine (Reception σ) Bytes where
  Initial := fun start => start.recvPos = 0 ∧ start.calls = [] ∧ start.received = []
  Step := fun reception chunk next =>
    reception.Offers chunk ∧ reception.read consumer.consume chunk = .ok next

/-- What one read leaves behind. -/
structure ReadEnd (reception : Reception σ) (chunk : Bytes) (more : List ConsumerCall)
    (next : Reception σ) : Prop where
  calls : next.calls = reception.calls ++ more
  received : next.received = reception.received ++ chunk
  bounded : next.recvPos ≤ 4096
  exact : (∀ call ∈ more, ¬call.Failed) →
    consumedBytes more ++ next.recvBuf.slice 0 next.recvPos =
      reception.recvBuf.slice 0 reception.recvPos ++ chunk
  kept : (∃ call ∈ more, call.Failed) → next.recvPos = reception.recvPos + chunk.length

theorem Reception.Offers.read_end {reception : Reception σ} {chunk : Bytes}
    (offers : reception.Offers chunk) (consumer : Consumer σ) :
    ∃ next more, reception.read consumer.consume chunk = .ok next ∧
      ReadEnd reception chunk more next := by
  have fits : reception.recvPos + chunk.length ≤ 4096 := by
    have space := offers.2
    have some := offers.1
    omega
  obtain ⟨good, after, recvPos, state, more, run, ends⟩ :=
    consumeLoop_loopEnd consumer fits (reception.recvBuf.write reception.recvPos chunk)
      reception.state reception.calls
  refine ⟨⟨after, recvPos, state, reception.calls ++ more, reception.received ++ chunk⟩, more,
    ?_, ⟨rfl, rfl, ends.bounded.trans fits, fun goods => ?_, ends.kept⟩⟩
  · rw [Reception.read, run]
  · rw [ends.exact goods, Buffer.slice_write_behind _ _ _ fits]

/-- What holds of a connection between two reads, and of every read that may follow. -/
structure ReadsExactly (consumer : Consumer σ) (reception : Reception σ) : Prop where
  bounded : reception.recvPos ≤ 4096
  exact : (∀ call ∈ reception.calls, ¬call.Failed) →
    consumedBytes reception.calls ++ reception.recvBuf.slice 0 reception.recvPos =
      reception.received
  ends : ∀ chunk, reception.Offers chunk → ∃ next more,
    reception.read consumer.consume chunk = .ok next ∧ next.calls = reception.calls ++ more ∧
      ((∃ call ∈ more, call.Failed) → next.recvPos = reception.recvPos + chunk.length)

theorem ReadsExactly.start {consumer : Consumer σ} {start : Reception σ}
    (initial : (receptionMachine consumer).Initial start) : ReadsExactly consumer start := by
  obtain ⟨empty, noCalls, nothing⟩ := initial
  refine ⟨by omega, fun _ => ?_, fun chunk offers => ?_⟩
  · rw [noCalls, nothing, empty]
    rfl
  · obtain ⟨next, more, run, ends⟩ := offers.read_end consumer
    exact ⟨next, more, run, ends.calls, ends.kept⟩

theorem ReadsExactly.step {consumer : Consumer σ} {reception next : Reception σ} {chunk : Bytes}
    (exactly : ReadsExactly consumer reception)
    (stepped : (receptionMachine consumer).Step reception chunk next) :
    ReadsExactly consumer next := by
  obtain ⟨offers, read⟩ := stepped
  obtain ⟨after, more, run, ends⟩ := offers.read_end consumer
  rw [read] at run
  cases run
  refine ⟨ends.bounded, fun goods => ?_, fun chunk offers => ?_⟩
  · rw [ends.calls] at goods ⊢
    have before := exactly.exact fun call member => goods call (List.mem_append_left _ member)
    have now := ends.exact fun call member => goods call (List.mem_append_right _ member)
    have bytes : consumedBytes (reception.calls ++ more) =
        consumedBytes reception.calls ++ consumedBytes more := List.flatMap_append
    calc consumedBytes (reception.calls ++ more) ++ next.recvBuf.slice 0 next.recvPos
        = consumedBytes reception.calls ++
            (consumedBytes more ++ next.recvBuf.slice 0 next.recvPos) := by
          rw [bytes, List.append_assoc]
      _ = consumedBytes reception.calls ++
            reception.recvBuf.slice 0 reception.recvPos ++ chunk := by
          rw [now, List.append_assoc]
      _ = next.received := by rw [before, ends.received]
  · obtain ⟨last, more, run, ends⟩ := offers.read_end consumer
    exact ⟨last, more, run, ends.calls, ends.kept⟩

/-- For every consumer and every sequence of reads, the loop ends, the buffer is never
overrun, and no byte is lost or repeated before a call fails. -/
theorem reads_exactly (consumer : Consumer σ) (reception : Reception σ)
    (reachable : (receptionMachine consumer).Reachable reception) :
    ReadsExactly consumer reception :=
  reachable.invariant (fun _ initial => ReadsExactly.start initial)
    fun _ _ _ _ exactly stepped _ => exactly.step stepped

/-! ## A consumer of pairs -/

/-- Takes two bytes while there are two. -/
def Consumer.pairs : Consumer Unit where
  consume := fun data => pure (if data.length < 2 then 0 else 2, data)
  answers := by
    intro data state
    refine ⟨_, _, _, rfl, rfl, .inr ?_⟩
    split
    · simp
    · simp
      omega

def Reception.empty : Reception Unit where
  recvBuf := default
  recvPos := 0
  state := ()
  calls := []
  received := []

/-- Of three bytes, one waits for the next read. -/
theorem reads_exactly_pairs :
    ∃ reception, (receptionMachine Consumer.pairs).Reachable reception ∧
      reception.recvPos = 1 ∧ ReadsExactly Consumer.pairs reception := by
  have run : (Reception.empty.read Consumer.pairs.consume [1, 2, 3]).toOption.any
      (fun next => decide (next.recvPos = 1)) = true := by
    decide +kernel
  cases read : Reception.empty.read Consumer.pairs.consume [1, 2, 3] with
  | error failure => simp [read, Except.toOption] at run
  | ok next =>
      have one : next.recvPos = 1 := by simpa [read, Except.toOption] using run
      have reachable : (receptionMachine Consumer.pairs).Reachable next :=
        Machine.Reachable.step (Machine.ReachableWhen.start ⟨rfl, rfl, rfl⟩)
          ⟨⟨by decide, by decide⟩, read⟩
      exact ⟨next, reachable, one, reads_exactly Consumer.pairs next reachable⟩

end EpicMiner.EventLoop
