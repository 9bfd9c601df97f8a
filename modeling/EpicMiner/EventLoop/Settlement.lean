import EpicMiner.EventLoop.Shares
import EpicMiner.Library.Parts

/-!
Owns the settlement of shares: each reply that is counted uses up one submit line, that of
the call it answers. Ids are reused and calls are dropped, and still no line is settled twice.
-/

namespace EpicMiner.EventLoop

open EpicMiner.Library
open EpicMiner.Library.Program
open EpicMiner.Data

variable {Engine : Type}

/-! ## Replies and the lines they settle -/

/-- A reply as `on_result_reply` counts it. -/
structure Reply where
  accepted : Bool
  minerId : UInt32
deriving DecidableEq

/-- The replies that were counted, latest first. -/
def replies : List Effect → List Reply
  | [] => []
  | .resultReply _ error _ minerId :: older => ⟨error.isNone, minerId⟩ :: replies older
  | _ :: older => replies older

/-- The call map with the share of each call, and nothing for a login call. -/
def resultDesk (log : List Effect) : Desk UInt32 (Option MinerResult) :=
  deskOf none (fun _ res => some res) log

/-- The share that the latest document answers. -/
def answeredResult : List Effect → Option MinerResult
  | .document doc :: earlier =>
      ((answeredCall doc).bind fun callId => (resultDesk earlier).answer callId).join
  | _ => none

/-- The shares that the counted replies are for, latest reply first. -/
def settled : List Effect → List MinerResult
  | [] => []
  | .resultReply _ _ _ _ :: older => (answeredResult older).toList ++ settled older
  | _ :: older => settled older

/-- The shares of the calls in the map. -/
def outstanding (log : List Effect) : List MinerResult :=
  (Desk.contents (resultDesk log).slots).reduceOption

/-- The shares of the submit lines, latest first. -/
def submittedResults (log : List Effect) : List MinerResult :=
  (submitted log).map Prod.fst

/-! ## No line is settled twice -/

theorem outstanding_issue (desk : Desk UInt32 (Option MinerResult)) (callId : UInt32)
    (share : Option MinerResult) :
    (Desk.contents (desk.issue callId share).slots).reduceOption.Subperm
      (share.toList ++ (Desk.contents desk.slots).reduceOption) := by
  have contents : (Desk.contents (desk.issue callId share).slots).Subperm
      (share :: Desk.contents desk.slots) := Desk.contents_issue
  have issued := subperm_reduceOption contents
  cases share <;> exact issued

theorem outstanding_call (desk : Desk UInt32 (Option MinerResult)) (callId : UInt32) :
    ((Desk.contents (desk.call callId).slots).reduceOption ++
        (desk.answer callId).join.toList).Perm (Desk.contents desk.slots).reduceOption := by
  have contents : (Desk.contents (desk.call callId).slots ++ (desk.answer callId).toList).Perm
      (Desk.contents desk.slots) := Desk.contents_call
  have called := contents.filterMap id
  rw [List.filterMap_append] at called
  cases answered : desk.answer callId with
  | none => rwa [answered] at called
  | some share =>
      rw [answered] at called
      cases share <;> exact called

/-- The shares of the calls in the map, the one just answered and the settled ones are those
of different submit lines. The induction follows the log: a line enters the map once, and
leaves it when a document answers it, to be settled by the next entry or by none. -/
theorem settlement (log : List Effect) :
    (outstanding log ++ ((answeredResult log).toList ++ settled log)).Subperm
      (submittedResults log) := by
  induction log with
  | nil => exact List.Subperm.refl _
  | cons effect older inductionHypothesis =>
      -- What the document before this entry answered is left open from now on.
      have kept : (outstanding older ++ settled older).Subperm (submittedResults older) :=
        ((List.sublist_append_right ..).append_left _).subperm.trans inductionHypothesis
      cases effect with
      | resultReply target error rtt minerId => exact inductionHypothesis
      | dial clear =>
          have dropped : outstanding (.dial clear :: older) = [] := by
            change (Desk.contents (resultDesk older).clear.slots).reduceOption = []
            rw [Desk.contents_clear]
            rfl
          rw [dropped]
          exact (List.sublist_append_right ..).subperm.trans kept
      | login callId =>
          have issued := outstanding_issue (resultDesk older) callId none
          exact (issued.append (List.Subperm.refl _)).trans kept
      | submit callId res =>
          have issued := outstanding_issue (resultDesk older) callId (some res)
          exact (issued.append (List.Subperm.refl _)).trans ((List.subperm_cons res).mpr kept)
      | document doc =>
          cases answered : answeredCall doc with
          | none =>
              have unchanged : outstanding (.document doc :: older) = outstanding older := by
                simp only [outstanding, resultDesk, deskOf, answered]
              have unanswered : answeredResult (.document doc :: older) = none := by
                simp only [answeredResult, answered, Option.bind_none, Option.join_none]
              rw [unchanged, unanswered]
              exact kept
          | some callId =>
              have moved : outstanding (.document doc :: older) ++
                  ((answeredResult (.document doc :: older)).toList ++ settled older) =
                  (Desk.contents ((resultDesk older).call callId).slots).reduceOption ++
                    ((resultDesk older).answer callId).join.toList ++ settled older := by
                simp only [outstanding, resultDesk, deskOf, answeredResult, answered,
                  Option.bind_some, List.append_assoc]
              change (outstanding (.document doc :: older) ++
                ((answeredResult (.document doc :: older)).toList ++ settled older)).Subperm _
              rw [moved]
              have called := outstanding_call (resultDesk older) callId
              exact (called.append_right _).subperm.trans kept
      | _ => exact kept

theorem settled_subperm (log : List Effect) : (settled log).Subperm (submittedResults log) :=
  ((List.sublist_append_right ..).trans (List.sublist_append_right ..)).subperm.trans
    (settlement log)

/-! ## Every reply settles a line -/

/-- Each counted reply is for a share, and for the miner of it. -/
def Settles (log : List Effect) : Prop :=
  List.Forall₂ (fun reply share => share.minerId = reply.minerId) (replies log) (settled log)

theorem Effect.isReply_of_isCall {effect : Effect} (silent : effect.isCall = false) :
    effect.isReply = false := by
  cases effect <;> first | rfl | cases silent

theorem settles_append {newer older : List Effect} (settles : Settles older)
    (silent : ∀ effect ∈ newer, effect.isReply = false) : Settles (newer ++ older) := by
  have sameReplies : replies (newer ++ older) = replies older := by
    refine read_append (fun effect older isSilent => ?_) silent
    cases effect <;> first | rfl | cases isSilent
  have sameSettled : settled (newer ++ older) = settled older := by
    refine read_append (fun effect older isSilent => ?_) silent
    cases effect <;> first | rfl | cases isSilent
  unfold Settles
  rw [sameReplies, sameSettled]
  exact settles

def heldLogin : CallPayload × Option MinerResult :=
  ((.login, invalidMinerId), none)

def heldShare (res : MinerResult) : CallPayload × Option MinerResult :=
  ((.result, res.minerId), some res)

/-- The call map with what it keeps of a call, and the share. -/
def heldDesk (log : List Effect) : Desk UInt32 (CallPayload × Option MinerResult) :=
  deskOf heldLogin (fun _ res => heldShare res) log

theorem slots_callDesk_held (log : List Effect) :
    (callDesk log).slots = Desk.relabel Prod.fst (heldDesk log).slots :=
  slots_deskOf_relabel heldLogin (fun _ res => heldShare res) Prod.fst log

theorem slots_resultDesk (log : List Effect) :
    (resultDesk log).slots = Desk.relabel Prod.snd (heldDesk log).slots :=
  slots_deskOf_relabel heldLogin (fun _ res => heldShare res) Prod.snd log

/-- What a call of a share stands for: the miner that the map keeps is that of the share. -/
theorem held_share {log : List Effect} {callId minerId : UInt32} {share : Option MinerResult}
    (held : some (callId, ((.result, minerId), share)) ∈ (heldDesk log).slots) :
    ∃ res, share = some res ∧ res.minerId = minerId := by
  have known := deskOf_payloads heldLogin (fun _ res => heldShare res)
    (fun payload => payload.1.1 = .result → ∃ res, payload.2 = some res ∧ res.minerId = payload.1.2)
    nofun (fun _ res _ => ⟨res, rfl, rfl⟩) log callId _ held
  exact known rfl

/-- A document that answers the call of a share is answered from the desk: the two desks hold
the same tickets. -/
theorem answeredResult_of_find {app : App} (traced : Traced app) {doc : Value} {callId : UInt32}
    (answered : answeredCall doc = some callId)
    (isResult : (app.pool.calls.findCall callId).1 = .result) :
    ∃ res, answeredResult (.document doc :: app.log) = some res ∧
      res.minerId = (app.pool.calls.findCall callId).2.1 := by
  obtain ⟨-, -, outcome⟩ := app.pool.calls.findCall_take callId
  rcases outcome with ⟨-, invalid⟩ | ⟨taken, -⟩
  · rw [isResult] at invalid
    cases invalid
  · rw [traced.slots, slots_callDesk_held, Desk.take_relabel, isResult] at taken
    obtain ⟨⟨call, share⟩, there, same⟩ := Option.map_eq_some_iff.mp taken
    dsimp only at same
    subst same
    obtain ⟨res, isShare, isMiner⟩ := held_share (Desk.mem_of_take there)
    refine ⟨res, ?_, isMiner⟩
    simp only [answeredResult, answered, Option.bind_some, Desk.answer, slots_resultDesk,
      Desk.take_relabel, there, Option.map_some, Option.join_some]
    exact isShare

theorem Settles.replied {app : App}
    (settles : Settles app.log) {res : MinerResult}
    (answered : answeredResult app.log = some res) (target : UInt32) (error : Option Bytes)
    (rtt : UInt64) : Settles (app.replied target error rtt res.minerId).log := by
  have settlesReply : Settles (.resultReply target error rtt res.minerId :: app.log) := by
    unfold Settles
    rw [replies, settled, answered]
    exact .cons rfl settles
  cases error with
  | none => exact settlesReply
  | some text =>
      have silent : ∀ effect ∈ [Effect.logError text], effect.isReply = false := by
        simp [Effect.isReply]
      exact settles_append settlesReply silent

theorem Settles.processed {config : Config} {members : List (Bytes × Value)} {app next : App}
    {accepted : Bool} (traced : Traced app) (settles : Settles app.log)
    (processed : Processed config (app.record (.document (.object members)))
      (Message.ofMembers members) accepted next) : Settles next.log := by
  have documented : Settles (.document (.object members) :: app.log) := settles
  generalize message : Message.ofMembers members = shape at processed
  cases processed with
  | refused err => exact documented
  | job outcome =>
      obtain ⟨-, newer, log, quiet⟩ := outcome.calls
      rw [log]
      exact settles_append documented fun effect member =>
        Effect.isReply_of_isCall (quiet effect member)
  | replyRefused err _ _ => exact documented
  | loggedIn _ _ _ outcome =>
      obtain ⟨-, newer, log, quiet⟩ := outcome.calls
      rw [log]
      exact settles_append documented fun effect member =>
        Effect.isReply_of_isCall (quiet effect member)
  | kept _ => exact documented
  | @shareReplied callId outcome rtt isResult _ =>
      obtain ⟨res, answered, isMiner⟩ :=
        answeredResult_of_find traced (answeredCall_reply message) isResult
      have isMiner : res.minerId =
          ((app.record (.document (.object members))).pool.calls.findCall callId).2.1 := isMiner
      rw [← isMiner]
      have freed : Settles ((app.record (.document (.object members))).freed callId).log :=
        documented
      exact freed.replied answered _ _ _

/-! ## Runs -/

def settling : Behaviour Fault (Sys Engine) :=
  .keeping (fun sys => Traced sys.app ∧ Settles sys.app.log) fun _ => False

theorem Effect.isReply_of_routine {effect : Effect} (routine : effect.isRoutine = true) :
    effect.isReply = false := by
  cases effect <;> first | rfl | cases routine

theorem settling_turn (env : Env Engine) : Turn env settling := by
  have traces := tracing_turn env
  apply traces.beyond
  case fault => exact fun _ _ _ => id
  case routine =>
    rintro sys next newer traces routine ⟨traced, settles⟩
    refine ⟨traces traced, ?_⟩
    rw [routine.log]
    exact settles_append settles fun effect member =>
      Effect.isReply_of_routine (routine.effects effect member)
  case document =>
    intro sys members
    apply Ends.processed fun _ _ => id
    intro accepted app processed ⟨traced, settles⟩
    exact ⟨traced.processed processed, settles.processed traced processed⟩
  case dialled =>
    intro sys idle ⟨traced, settles⟩
    exact ⟨traces.dialled sys idle traced, settles⟩
  case socketClosed =>
    intro sys due ⟨traced, settles⟩
    refine ⟨traces.socketClosed sys due traced, ?_⟩
    have silent : ∀ effect ∈ [Effect.closed, .shared .publishIdle, .shared .storeNonce],
        effect.isReply = false := by
      simp [Effect.isReply]
    exact settles_append settles silent

theorem reachable_settles {env : Env Engine} {sys : Sys Engine}
    (reachable : (machine env).Reachable sys) : Settles sys.app.log := by
  rcases (settling_turn env).sinceDial reachable with untouched | ⟨before, untouched, change⟩
  · rw [untouched.log]
    exact .nil
  · refine (change ⟨untouched.traced, ?_⟩).2
    have nothing : Settles before.app.log := by
      rw [untouched.log]
      exact .nil
    exact nothing

/-! ## The share totals -/

theorem length_repliesSince_le (found : Nat → UInt32) (log : List Effect) :
    (repliesSince found log).length ≤ (replies log).length := by
  induction log with
  | nil => exact Nat.le_refl 0
  | cons effect older inductionHypothesis =>
      cases effect with
      | resultReply target error rtt minerId => exact Nat.succ_le_succ inductionHypothesis
      | shared op =>
          cases op with
          | publishIdle =>
              change (if _ then [] else repliesSince found older).length ≤ (replies older).length
              split
              · exact Nat.zero_le _
              · exact inductionHypothesis
          | _ => exact inductionHypothesis
      | _ => exact inductionHypothesis

theorem acceptedCount_add_rejectedCount (replies : List ShareReply) :
    acceptedCount replies + rejectedCount replies = replies.length := by
  unfold acceptedCount rejectedCount
  exact (List.length_eq_length_filter_add _).symm

/-- The share totals that are shown never exceed the submit lines. -/
theorem totals_le_submitted {env : Env Engine} {sys : Sys Engine}
    (reachable : (machine env).Reachable sys) :
    sys.app.executor.poolCtr.acceptedSharesCnt.toNat +
        sys.app.executor.poolCtr.rejectedSharesCnt.toNat ≤ (submitted sys.app.log).length := by
  have counted := reachable_counted (fun _ => 0) reachable
  have settles := (reachable_settles reachable).length_eq
  have lines := (settled_subperm sys.app.log).length_le
  rw [submittedResults, List.length_map] at lines
  calc sys.app.executor.poolCtr.acceptedSharesCnt.toNat +
        sys.app.executor.poolCtr.rejectedSharesCnt.toNat
      ≤ acceptedCount (repliesSince (fun _ => 0) sys.app.log) +
          rejectedCount (repliesSince (fun _ => 0) sys.app.log) := by
        rw [counted.accepted, counted.rejected, UInt64.toNat_ofNat', UInt64.toNat_ofNat']
        exact Nat.add_le_add (Nat.mod_le _ _) (Nat.mod_le _ _)
    _ = (repliesSince (fun _ => 0) sys.app.log).length := acceptedCount_add_rejectedCount _
    _ ≤ (replies sys.app.log).length := length_repliesSince_le _ _
    _ = (settled sys.app.log).length := settles
    _ ≤ (submitted sys.app.log).length := lines

end EpicMiner.EventLoop
