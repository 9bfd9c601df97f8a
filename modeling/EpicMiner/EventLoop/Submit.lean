import EpicMiner.EventLoop.Closure
import EpicMiner.EventLoop.Messages

/-!
Owns the call id of a submit line. `do_send_result` drops the flag that
`register_call` returns, so the line goes out with whatever its out parameter
holds when no slot is free.
-/

namespace EpicMiner.EventLoop

open EpicMiner.Library
open EpicMiner.Library.Program
open EpicMiner.Data

variable {Engine : Type}

/-! ## Registered calls -/

/-- The id that a registration hands out is awaited exactly if no older call
still carries it. -/
theorem awaits_registered_iff {map registered : CallMap} {before after : List CallMapping}
    {free : CallMapping} (type : CallTypes) (now : Int) (minerId : UInt32)
    (valid : type ≠ .invalid) (isFree : ¬ free.Live)
    (split : map.entries = before ++ free :: after)
    (taken : registered.entries = before ++ ⟨map.gCallId, type, now, minerId⟩ :: after) :
    registered.Awaits map.gCallId type minerId ↔ map.liveWith map.gCallId = [] := by
  have idle : free.type = .invalid := by simpa [CallMapping.Live] using isFree
  unfold CallMap.Awaits CallMap.liveWith
  rw [split, taken]
  simp only [List.filter_append, List.filter_cons, idle, bne_self_eq_false, Bool.false_and,
    Bool.false_eq_true, if_false, List.append_eq_nil_iff]
  simp only [bne_iff_ne, ne_eq, valid, not_false_eq_true, beq_self_eq_true, Bool.and_true, if_true]
  constructor
  · rintro ⟨mapping, only, -⟩
    have lengths := congrArg List.length only
    simp only [List.length_append, List.length_cons, List.length_nil] at lengths
    exact ⟨List.length_eq_zero_iff.mp (by omega), List.length_eq_zero_iff.mp (by omega)⟩
  · rintro ⟨noneBefore, noneAfter⟩
    exact ⟨_, by rw [noneBefore, noneAfter]; rfl, rfl, rfl⟩

/-! ## Submits -/

def submits (log : List Effect) : List UInt32 :=
  log.filterMap fun effect =>
    match effect with
    | .submit callId _ => some callId
    | _ => none

/-- Handling a share wrote no submit line, or wrote one while a slot was free,
whose id the call map then awaits for exactly this miner. -/
def SubmitAwaited (sys next : Sys Engine) (res : MinerResult) : Prop :=
  submits next.app.log = submits sys.app.log ∨
    sys.app.pool.calls.HasFree ∧ ∃ callId,
      submits next.app.log = callId :: submits sys.app.log ∧
        next.app.pool.calls.Awaits callId .result res.minerId

/-- The behaviour of the sending half towards the calls. -/
def sending : Behaviour Fault (Sys Engine) where
  Change := fun sys next => next.app.pool.calls = sys.app.pool.calls ∧
    submits next.app.log = submits sys.app.log
  Fault := fun _ _ => True
  refl := fun _ => ⟨rfl, rfl⟩
  trans := fun first second => ⟨second.1.trans first.1, second.2.trans first.2⟩
  fault_trans := fun _ _ => trivial

theorem sending_core : Core (sending : Behaviour Fault (Sys Engine)) where
  fault := fun _ _ _ => trivial
  sendIdle := fun _ _ _ _ => trivial
  shutdownIdle := fun _ _ _ => trivial
  logError := fun _ _ => ⟨rfl, rfl⟩
  shutdownCalled := fun _ => ⟨rfl, rfl⟩
  shutdownStarted := fun _ _ _ => ⟨rfl, rfl⟩
  jobDropped := fun _ _ => ⟨rfl, rfl⟩
  acquire := fun _ _ _ => ⟨rfl, rfl⟩
  fill := fun _ _ _ _ => ⟨rfl, rfl⟩
  handOver := fun _ _ _ _ _ => ⟨rfl, rfl⟩
  engine := fun _ _ => ⟨rfl, rfl⟩

theorem doSendResult_ensures (env : Env Engine) (res : MinerResult) (sys : Sys Engine) :
    Ensures (doSendResult env res) sys
      (fun _ next =>
        (sys.app.pool.state ≠ .hasJob → next = sys) ∧
        (sys.app.pool.state = .hasJob →
          next.app.pool.calls = (sys.registration .result res.minerId).2.2 ∧
            submits next.app.log =
              (sys.registration .result res.minerId).2.1 :: submits sys.app.log))
      (fun _ => True) := by
  unfold doSendResult doSendResultThrough
  rw [ensures_bind, ensures_get, ensures_ite]
  constructor
  · intro other
    exact ⟨fun _ => rfl, fun has => absurd has other⟩
  · intro has
    have isJob : sys.app.pool.state = .hasJob := by simpa using has
    rw [ensures_bind_of_run (run_prepareResult res), ensures_bind, ensures_get]
    apply Ensures.mono (sending_core.sendLine (submitLine_ne_nil _ res _) (sys.shareMade res))
    rintro _ next ⟨⟨calls, lines⟩, -⟩
    exact ⟨fun other => absurd isJob other, fun _ => ⟨calls, lines⟩⟩

/-- A share that the pool handles to the end leads to an awaited submit line, or
none, exactly if, given that the pool has a job, a slot is free and no older
call carries the next id. -/
theorem submit_awaited_iff (env : Env Engine) (sys next : Sys Engine) (input : Input)
    (res : MinerResult)
    (handled : handle env sys { input with event := .foundResult res } = .ok next) :
    SubmitAwaited sys next res ↔
      (sys.app.pool.state = .hasJob → sys.app.pool.calls.HasFree ∧
        sys.app.pool.calls.liveWith sys.app.pool.calls.gCallId = []) := by
  obtain ⟨other, has⟩ : _ ∧ _ := by
    have ensures := doSendResult_ensures env res
      (sys.answering { input with event := .foundResult res })
    unfold handle at handled
    split at handled
    · cases handled
    · rename_i ended
      cases handled
      exact ensures.of_run ended
  by_cases isJob : sys.app.pool.state = .hasJob
  · obtain ⟨calls, lines⟩ := has isJob
    simp only [isJob, true_implies]
    have grown : submits next.app.log ≠ submits sys.app.log := by
      rw [lines]
      exact List.cons_ne_self _ _
    change next.app.pool.calls = (sys.app.pool.calls.registerCall .result input.uninitialised
      input.now res.minerId).2.2 at calls
    change submits next.app.log = (sys.app.pool.calls.registerCall .result input.uninitialised
      input.now res.minerId).2.1 :: submits sys.app.log at lines
    rcases sys.app.pool.calls.registerCall_cases .result input.uninitialised input.now res.minerId
      with ⟨full, -⟩ | ⟨before, free, after, registered, split, -, isFree, taken, -, made⟩
    · have noneFree : ¬ sys.app.pool.calls.HasFree := by
        rintro ⟨mapping, member, isFree⟩
        exact isFree (full mapping member)
      simp only [SubmitAwaited, grown, noneFree, false_and, or_self]
    · have hasFree : sys.app.pool.calls.HasFree := ⟨free, by rw [split]; simp, isFree⟩
      rw [made] at calls lines
      simp only [SubmitAwaited, grown, hasFree, true_and, false_or]
      rw [← awaits_registered_iff .result input.now res.minerId (by decide) isFree split taken,
        calls, lines]
      constructor
      · rintro ⟨callId, same, awaits⟩
        cases same
        exact awaits
      · intro awaits
        exact ⟨_, rfl, awaits⟩
  · have same := other isJob
    simp only [isJob, false_implies, iff_true]
    exact .inl (by rw [same]; rfl)

theorem exists_handled {env : Env Engine} {sys : Sys Engine} {input : Input}
    {test : Sys Engine → Bool} (passes : (handle env sys input).toOption.any test = true) :
    ∃ next, handle env sys input = .ok next ∧ test next = true := by
  cases result : handle env sys input with
  | error failure => simp [result, Except.toOption] at passes
  | ok next => exact ⟨next, rfl, by simpa [result, Except.toOption] using passes⟩

def sampleShare : MinerResult where
  id := default
  nonce := 0
  resHash := default
  minerId := 0

/-- Shares are found and their lines written, but the server answers no call. -/
def unansweredSession (shares : Nat) : List Input :=
  sampleSession ++ (List.range shares).flatMap fun idx =>
    [(Event.foundResult sampleShare).at (20040 + idx), (Event.written firstSlot 0).at (20040 + idx)]

theorem submit_awaited_iff_sample :
    ∃ sys next, (machine .sample).Reachable sys ∧
      handle .sample sys ((Event.foundResult sampleShare).at 20100) = .ok next ∧
      (SubmitAwaited sys next sampleShare ↔
        (sys.app.pool.state = .hasJob → sys.app.pool.calls.HasFree ∧
          sys.app.pool.calls.liveWith sys.app.pool.calls.gCallId = [])) := by
  obtain ⟨reachable, passes⟩ :=
    Machine.execute_reachable Sys.start_initial (step .sample) (unansweredSession 3)
      (fun sys => (handle .sample sys ((Event.foundResult sampleShare).at 20100)).toOption.any
        (fun _ => true) = true) (by decide +kernel)
  obtain ⟨next, handled, -⟩ := exists_handled passes
  exact ⟨_, next, reachable, handled, submit_awaited_iff .sample _ next
    ((Event.foundResult sampleShare).at 20100) sampleShare handled⟩

/-- The login call and seven shares occupy all slots. The line of the eighth
share carries what the out parameter happened to hold, which nothing awaits. -/
theorem exhausted_calls_not_awaited :
    ∃ sys next, (machine .sample).Reachable sys ∧ ¬ sys.app.pool.calls.HasFree ∧
      handle .sample sys
          { (Event.foundResult sampleShare).at 20100 with uninitialised := 77 } = .ok next ∧
      submits next.app.log = 77 :: submits sys.app.log ∧
      ¬ SubmitAwaited sys next sampleShare := by
  obtain ⟨reachable, full, passes⟩ :=
    Machine.execute_reachable Sys.start_initial (step .sample) (unansweredSession 7)
      (fun sys => ¬ sys.app.pool.calls.HasFree ∧
        (handle .sample sys
            { (Event.foundResult sampleShare).at 20100 with uninitialised := 77 }).toOption.any
          (fun next => submits next.app.log == 77 :: submits sys.app.log) = true)
      (by decide +kernel)
  obtain ⟨next, handled, lines⟩ := exists_handled passes
  have written := eq_of_beq lines
  refine ⟨_, next, reachable, full, handled, written, ?_⟩
  rintro (same | ⟨hasFree, -⟩)
  · rw [written] at same
    exact List.cons_ne_self _ _ same
  · exact full hasFree

end EpicMiner.EventLoop
