import EpicMiner.EventLoop.Dispatch
import EpicMiner.EventLoop.Replies
import EpicMiner.EventLoop.Submit
import EpicMiner.EventLoop.Turns

/-!
Owns the matching of replies over runs of the event loop. The log says which calls
were registered, which documents answer one, and when the map was flushed; the
desk it describes is the call map of the pool, whatever its tickets stand for.
-/

namespace EpicMiner.EventLoop

open EpicMiner.Library
open EpicMiner.Library.Program
open EpicMiner.Data

variable {Engine : Type}

/-! ## The desk of a log -/

/-- The id of the call that a document answers. -/
def answeredCall : Value → Option UInt32
  | .object members =>
      match Message.ofMembers members with
      | .reply callId _ => some callId
      | _ => none
  | _ => none

theorem answeredCall_reply {members : List (Bytes × Value)} {callId : UInt32}
    {outcome : Except Bytes (List (Bytes × Value))}
    (reply : Message.ofMembers members = .reply callId outcome) :
    answeredCall (.object members) = some callId := by
  simp only [answeredCall, reply]

section DeskOf

variable {α : Type} (login : α) (share : Nat → MinerResult → α)

/-- The desk that the log describes, with a payload for login calls and one for
the share of each submit line, counted from the first. A call that was given no
slot leaves no trace. -/
def deskOf : List Effect → Desk UInt32 α
  | [] => ⟨List.replicate 8 none, []⟩
  | effect :: older =>
      match effect with
      | .dial _ => (deskOf older).clear
      | .login callId => (deskOf older).issue callId login
      | .submit callId res => (deskOf older).issue callId (share (submits older).length res)
      | .document doc =>
          match answeredCall doc with
          | some callId => (deskOf older).call callId
          | none => deskOf older
      | _ => deskOf older

/-- The slots of the log with other payloads. -/
theorem slots_deskOf_relabel {β : Type} (f : α → β) (log : List Effect) :
    (deskOf (f login) (fun count res => f (share count res)) log).slots =
      Desk.relabel f (deskOf login share log).slots := by
  induction log with
  | nil => rfl
  | cons effect older inductionHypothesis =>
      have issued : ∀ callId payload,
          ((deskOf (f login) (fun count res => f (share count res)) older).issue callId
              (f payload)).slots =
            Desk.relabel f ((deskOf login share older).issue callId payload).slots := by
        intro callId payload
        unfold Desk.issue
        rw [inductionHypothesis, Desk.place_relabel]
        cases Desk.place callId payload (deskOf login share older).slots with
        | none => exact inductionHypothesis
        | some slots => rfl
      cases effect with
      | dial clear =>
          simp only [deskOf, Desk.clear, inductionHypothesis, Desk.relabel, List.map_map]
          rfl
      | login callId => exact issued callId login
      | submit callId res => exact issued callId _
      | document doc =>
          simp only [deskOf]
          cases answeredCall doc with
          | none => exact inductionHypothesis
          | some callId =>
              simp only [Desk.call, inductionHypothesis, Desk.take_relabel]
      | _ => exact inductionHypothesis

/-- What holds of all payloads given holds of those in the slots. -/
theorem deskOf_payloads (Holds : α → Prop) (ofLogin : Holds login)
    (ofShare : ∀ count res, Holds (share count res)) (log : List Effect) (ticket : UInt32)
    (payload : α) (held : some (ticket, payload) ∈ (deskOf login share log).slots) :
    Holds payload := by
  induction log generalizing ticket payload with
  | nil => simp [deskOf] at held
  | cons effect older inductionHypothesis =>
      have issued : ∀ callId given, Holds given →
          some (ticket, payload) ∈ ((deskOf login share older).issue callId given).slots →
          Holds payload := by
        intro callId given holds held
        rcases Desk.mem_issue held with ⟨-, rfl⟩ | earlier
        · exact holds
        · exact inductionHypothesis ticket payload earlier
      cases effect with
      | dial clear => simp [deskOf, Desk.clear] at held
      | login callId => exact issued callId login ofLogin held
      | submit callId res => exact issued callId _ (ofShare _ res) held
      | document doc =>
          simp only [deskOf] at held
          cases answered : answeredCall doc with
          | none =>
              rw [answered] at held
              exact inductionHypothesis ticket payload held
          | some callId =>
              rw [answered] at held
              exact inductionHypothesis ticket payload (Desk.mem_call held)
      | _ => exact inductionHypothesis ticket payload held

end DeskOf

/-- The desk of the log, with what the call map keeps of a call. -/
def callDesk (log : List Effect) : Desk UInt32 CallPayload :=
  deskOf (.login, invalidMinerId) (fun _ res => (.result, res.minerId)) log

theorem callDesk_document (doc : Value) (log : List Effect) :
    callDesk (.document doc :: log) =
      match answeredCall doc with
      | some callId => (callDesk log).call callId
      | none => callDesk log :=
  rfl

/-- At most 2^32 calls were registered between any two flushes. -/
def CallsLimited (log : List Effect) : Prop :=
  ∀ older, older <:+ log → Desk.issuedSince (callDesk older).history ≤ 4294967296

/-- A share was submitted under the id of a call that was registered for it since
the last flush and that no document answered since. -/
def Submitted (log : List Effect) (callId : UInt32) (res : MinerResult) : Prop :=
  ∃ newer older, log = newer ++ .submit callId res :: older ∧
    none ∈ (callDesk older).slots ∧
    ∀ effect ∈ newer, (∀ clear, effect ≠ .dial clear) ∧
      ∀ doc, effect = .document doc → answeredCall doc ≠ some callId

/-- Every share reply is for the miner of the share submitted under the id that
the document answers. -/
def RepliesMatched (log : List Effect) : Prop :=
  ∀ newer older target error rtt minerId,
    log = newer ++ .resultReply target error rtt minerId :: older →
      ∃ doc earlier callId res, older = .document doc :: earlier ∧
        answeredCall doc = some callId ∧ Submitted earlier callId res ∧ res.minerId = minerId

/-! ## Entries of the log -/

/-- A reading of the log that passes over some entries passes over them in front of the log. -/
theorem read_append {α : Type} {read : List Effect → α} {tells : Effect → Bool}
    (passes : ∀ effect older, tells effect = false → read (effect :: older) = read older)
    {newer older : List Effect} (silent : ∀ effect ∈ newer, tells effect = false) :
    read (newer ++ older) = read older := by
  induction newer with
  | nil => rfl
  | cons effect newer inductionHypothesis =>
      calc read (effect :: (newer ++ older))
          = read (newer ++ older) := passes effect _ (silent effect (.head _))
        _ = read older := inductionHypothesis fun other member => silent other (.tail _ member)

/-- Entries that say something about calls. -/
def Effect.isCall : Effect → Bool
  | .dial _ => true
  | .login _ => true
  | .submit _ _ => true
  | .document _ => true
  | .resultReply _ _ _ _ => true
  | _ => false

theorem deskOf_quiet {α : Type} (login : α) (share : Nat → MinerResult → α)
    {newer older : List Effect} (quiet : ∀ effect ∈ newer, effect.isCall = false) :
    deskOf login share (newer ++ older) = deskOf login share older := by
  refine read_append (fun effect older silent => ?_) quiet
  cases effect <;> first | rfl | cases silent

theorem CallsLimited.older {newer older : List Effect} (limited : CallsLimited (newer ++ older)) :
    CallsLimited older :=
  fun earlier suffix => limited earlier (suffix.trans (List.suffix_append newer older))

theorem CallsLimited.tail {effect : Effect} {log : List Effect}
    (limited : CallsLimited (effect :: log)) : CallsLimited log :=
  fun earlier suffix => limited earlier (suffix.trans (List.suffix_cons effect log))

theorem CallsLimited.now {log : List Effect} (limited : CallsLimited log) :
    Desk.issuedSince (callDesk log).history ≤ 4294967296 :=
  limited log (List.suffix_refl log)

theorem RepliesMatched.cons {effect : Effect} {log : List Effect} (matched : RepliesMatched log)
    (reply : ∀ target error rtt minerId, effect = .resultReply target error rtt minerId →
      ∃ doc earlier callId res, log = .document doc :: earlier ∧
        answeredCall doc = some callId ∧ Submitted earlier callId res ∧ res.minerId = minerId) :
    RepliesMatched (effect :: log) := by
  intro newer older target error rtt minerId split
  cases newer with
  | nil =>
      injection split with same rest
      subst rest
      exact reply target error rtt minerId same
  | cons first newer =>
      injection split with _ rest
      exact matched newer older target error rtt minerId rest

theorem RepliesMatched.quiet {newer older : List Effect} (matched : RepliesMatched older)
    (quiet : ∀ effect ∈ newer, effect.isCall = false) : RepliesMatched (newer ++ older) := by
  induction newer with
  | nil => exact matched
  | cons effect newer inductionHypothesis =>
      apply (inductionHypothesis fun other member => quiet other (.tail _ member)).cons
      rintro target error rtt minerId rfl
      cases quiet _ (.head _)

theorem Submitted.cons {effect : Effect} {log : List Effect} {callId : UInt32} {res : MinerResult}
    (submitted : Submitted log callId res) (undialled : ∀ clear, effect ≠ .dial clear)
    (unanswered : ∀ doc, effect = .document doc → answeredCall doc ≠ some callId) :
    Submitted (effect :: log) callId res := by
  obtain ⟨newer, older, rfl, free, since⟩ := submitted
  refine ⟨effect :: newer, older, rfl, free, fun other member => ?_⟩
  rcases List.mem_cons.mp member with rfl | member
  · exact ⟨undialled, unanswered⟩
  · exact since other member

/-- An outstanding call of a share was registered for a share that was submitted
under its id. The induction follows the log. -/
theorem submitted_of_outstanding {log : List Effect} {callId minerId : UInt32}
    (outstanding : Desk.Outstanding (callDesk log).history callId (.result, minerId)) :
    ∃ res, Submitted log callId res ∧ res.minerId = minerId := by
  induction log with
  | nil =>
      obtain ⟨newer, older, split, -⟩ := outstanding
      cases newer <;> cases split
  | cons effect log inductionHypothesis =>
      have keep : Desk.Outstanding (callDesk log).history callId (.result, minerId) →
          (∀ clear, effect ≠ .dial clear) →
          (∀ doc, effect = .document doc → answeredCall doc ≠ some callId) →
          ∃ res, Submitted (effect :: log) callId res ∧ res.minerId = minerId := by
        intro earlier undialled unanswered
        obtain ⟨res, submitted, same⟩ := inductionHypothesis earlier
        exact ⟨res, submitted.cons undialled unanswered, same⟩
      cases effect with
      | dial clear => exact absurd outstanding Desk.not_outstanding_clear
      | login other =>
          rcases Desk.outstanding_issue.mp outstanding with ⟨-, -, ⟨⟩⟩ | earlier
          exact keep earlier nofun nofun
      | submit other res =>
          rcases Desk.outstanding_issue.mp outstanding with ⟨room, rfl, same⟩ | earlier
          · cases same
            exact ⟨res, ⟨[], log, rfl, room, by simp⟩, rfl⟩
          · exact keep earlier nofun nofun
      | document doc =>
          rw [callDesk_document] at outstanding
          cases answered : answeredCall doc with
          | none =>
              rw [answered] at outstanding
              apply keep outstanding nofun
              rintro _ ⟨⟩
              simp [answered]
          | some other =>
              rw [answered] at outstanding
              obtain ⟨differs, earlier⟩ := Desk.outstanding_call.mp outstanding
              apply keep earlier nofun
              rintro _ ⟨⟩ same
              rw [answered] at same
              cases same
              exact differs rfl
      | _ => exact keep outstanding nofun nofun

/-! ## Inside a callback -/

/-- The call map is the desk of the log. As long as the ids do not run out, the
desk tracks its history and all replies so far are matched. -/
structure Traced (app : App) : Prop where
  slots : app.pool.calls.slots = (callDesk app.log).slots
  counter : app.pool.calls.gCallId =
    UInt32.ofNat (Desk.issuedSince (callDesk app.log).history)
  tracks : CallsLimited app.log → Desk.Tracks UInt32.ofNat (callDesk app.log)
  matched : CallsLimited app.log → RepliesMatched app.log

namespace Traced

theorem quiet {app next : App} (traced : Traced app) (newer : List Effect)
    (log : next.log = newer ++ app.log) (silent : ∀ effect ∈ newer, effect.isCall = false)
    (calls : next.pool.calls = app.pool.calls) : Traced next := by
  have desk : callDesk next.log = callDesk app.log := by
    rw [log]
    exact deskOf_quiet _ _ silent
  constructor
  · rw [calls, desk]
    exact traced.slots
  · rw [calls, desk]
    exact traced.counter
  · rw [desk, log]
    exact fun limited => traced.tracks limited.older
  · rw [log]
    exact fun limited => (traced.matched limited.older).quiet silent

/-- A call is registered and its id noted. -/
theorem registered {app next : App} (traced : Traced app) {type : CallTypes} {minerId : UInt32}
    (valid : type ≠ .invalid) (note : UInt32 → Effect)
    (desk : ∀ callId, callDesk (note callId :: app.log) =
      (callDesk app.log).issue callId (type, minerId))
    (noReply : ∀ callId target error rtt minerId, note callId ≠ .resultReply target error rtt minerId)
    {callId : UInt32} {now : Int}
    (calls : next.pool.calls = (app.pool.calls.registerCall type callId now minerId).2.2)
    (log : next.log = note (app.pool.calls.registerCall type callId now minerId).2.1 :: app.log) :
    Traced next := by
  have matched : CallsLimited next.log → RepliesMatched next.log := by
    rw [log]
    intro limited
    apply (traced.matched (limited.tail)).cons
    intro target error rtt minerId same
    exact (noReply _ _ _ _ _ same).elim
  rcases app.pool.calls.registerCall_place valid callId now minerId with
    ⟨fails, made⟩ | ⟨registered, placed, counter, made⟩
  · rw [made] at calls log
    rw [traced.slots, Desk.place_eq_none_iff] at fails
    have same : callDesk next.log = callDesk app.log := by
      rw [log, desk, Desk.issue, Desk.place_eq_none_iff.mpr fails]
    refine ⟨?_, ?_, ?_, matched⟩
    · rw [calls, same]
      exact traced.slots
    · rw [calls, same]
      exact traced.counter
    · rw [same, log]
      exact fun limited => traced.tracks (limited.tail)
  · rw [made] at calls log
    rw [traced.slots] at placed
    have issued : callDesk next.log =
        ⟨registered.slots,
          .issued app.pool.calls.gCallId (type, minerId) :: (callDesk app.log).history⟩ := by
      rw [log, desk, Desk.issue, placed]
    refine ⟨by rw [calls, issued], ?_, ?_, matched⟩
    · rw [calls, counter, issued, traced.counter]
      exact (UInt32.ofNat_add _ 1).symm
    · intro limited
      have now := limited.now
      rw [log] at limited
      have tracks := (traced.tracks (limited.tail)).issue ofNat_injOn (type, minerId)
      rw [← traced.counter, Desk.issue, placed] at tracks
      rw [issued] at now ⊢
      exact tracks now

/-- A document is noted; the call it answers is called back. -/
theorem documented {app next : App} (traced : Traced app) (doc : Value)
    (log : next.log = .document doc :: app.log)
    (calls : next.pool.calls =
      match answeredCall doc with
      | some callId => (app.pool.calls.findCall callId).2.2
      | none => app.pool.calls) : Traced next := by
  have matched : CallsLimited next.log → RepliesMatched next.log := by
    rw [log]
    intro limited
    exact (traced.matched (limited.tail)).cons nofun
  have desk : callDesk next.log =
      match answeredCall doc with
      | some callId => (callDesk app.log).call callId
      | none => callDesk app.log := by
    rw [log]
    rfl
  cases answered : answeredCall doc with
  | none =>
      rw [answered] at calls desk
      refine ⟨?_, ?_, ?_, matched⟩
      · rw [calls, desk]
        exact traced.slots
      · rw [calls, desk]
        exact traced.counter
      · rw [desk, log]
        exact fun limited => traced.tracks (limited.tail)
  | some callId =>
      rw [answered] at calls desk
      obtain ⟨slots, counter, -⟩ := app.pool.calls.findCall_take callId
      refine ⟨?_, ?_, ?_, matched⟩
      · rw [calls, desk, slots, traced.slots]
        rfl
      · rw [calls, desk, counter]
        exact traced.counter
      · rw [desk, log]
        exact fun limited => (traced.tracks (limited.tail)).call callId

/-- The reply to a share is matched if the document before it answers an
outstanding call. -/
theorem replied {app : App} {doc : Value} {earlier : List Effect}
    (traced : Traced app) (log : app.log = .document doc :: earlier) {callId minerId : UInt32}
    (answered : answeredCall doc = some callId)
    (outstanding : CallsLimited earlier →
      Desk.Outstanding (callDesk earlier).history callId (.result, minerId))
    (target : UInt32) (error : Option Bytes) (rtt : UInt64) :
    Traced (app.replied target error rtt minerId) := by
  have noted : Traced (app.record (.resultReply target error rtt minerId)) := by
    refine ⟨traced.slots, traced.counter, ?_, ?_⟩
    · exact fun limited => traced.tracks (limited.tail)
    · intro limited
      have before := limited.tail
      apply (traced.matched before).cons
      rintro _ _ _ _ ⟨⟩
      rw [log] at before
      obtain ⟨res, submitted, same⟩ :=
        submitted_of_outstanding (outstanding (before.tail))
      exact ⟨doc, earlier, callId, res, log, answered, submitted, same⟩
  cases error with
  | none => exact noted.quiet [] rfl (by simp) rfl
  | some text => exact noted.quiet [_] rfl (by simp [Effect.isCall]) rfl

/-- A dial starts the map afresh, whatever it held. -/
theorem dialled (app : App) {next : App} (clear : Bool)
    (log : next.log = .dial clear :: app.log)
    (sized : app.pool.calls.slots.length = (callDesk app.log).slots.length)
    (matched : CallsLimited app.log → RepliesMatched app.log)
    (calls : next.pool.calls = app.pool.calls.flushCallMap) : Traced next := by
  have desk : callDesk next.log = (callDesk app.log).clear := by
    rw [log]
    rfl
  refine ⟨?_, ?_, ?_, ?_⟩
  · rw [calls, desk, CallMap.slots_flushCallMap]
    simp only [Desk.clear, List.map_const', sized]
  · rw [calls, desk]
    rfl
  · intro _
    rw [desk]
    exact Desk.Tracks.clear _ _
  · rw [log]
    intro limited
    apply (matched limited.tail).cons
    intro _ _ _ _ reply
    cases reply

end Traced

theorem length_slots (map : CallMap) : map.slots.length = 8 := by
  rw [CallMap.slots, List.length_map, map.sized]

/-! ### Documents -/

theorem JobOutcome.calls {config : Config} {param : Value} {app next : App} {accepted : Bool}
    (outcome : JobOutcome config param app accepted next) :
    next.pool.calls = app.pool.calls ∧
      ∃ newer, next.log = newer ++ app.log ∧ ∀ effect ∈ newer, effect.isCall = false := by
  cases outcome with
  | refused _ => exact ⟨rfl, [_], rfl, by simp [Effect.isCall]⟩
  | rejected _ _ _ _ _ => exact ⟨rfl, [_, _], rfl, by simp [Effect.isCall]⟩
  | accepted _ _ _ _ => exact ⟨rfl, [_, _, _, _, _, _, _], rfl, by simp [Effect.isCall]⟩

theorem Traced.processed {config : Config} {members : List (Bytes × Value)} {app next : App}
    {accepted : Bool} (traced : Traced app)
    (processed : Processed config (app.record (.document (.object members)))
      (Message.ofMembers members) accepted next) : Traced next := by
  have unanswered : (∀ callId outcome, Message.ofMembers members ≠ .reply callId outcome) →
      Traced (app.record (.document (.object members))) := by
    intro other
    apply traced.documented (.object members) rfl
    have none : answeredCall (.object members) = none := by
      unfold answeredCall
      cases message : Message.ofMembers members with
      | reply callId outcome => exact absurd message (other callId outcome)
      | _ => simp only [message]
    rw [none]
    rfl
  have called : ∀ {callId outcome}, Message.ofMembers members = .reply callId outcome →
      answeredCall (.object members) = some callId ∧
        Traced ((app.record (.document (.object members))).freed callId) := by
    intro callId outcome reply
    have answered := answeredCall_reply reply
    refine ⟨answered, traced.documented (.object members) rfl ?_⟩
    rw [answered]
    rfl
  generalize message : Message.ofMembers members = shape at processed
  cases processed with
  | refused err =>
      refine (unanswered ?_).quiet [_] rfl (by simp [Effect.isCall]) rfl
      rw [message]
      exact nofun
  | job outcome =>
      obtain ⟨calls, newer, log, quiet⟩ := outcome.calls
      refine (unanswered ?_).quiet newer log quiet calls
      rw [message]
      exact nofun
  | replyRefused err _ _ =>
      exact (called message).2.quiet [_] rfl (by simp [Effect.isCall]) rfl
  | loggedIn _ _ _ outcome =>
      obtain ⟨calls, newer, log, quiet⟩ := outcome.calls
      exact (called message).2.quiet newer log quiet calls
  | kept _ => exact (called message).2
  | @shareReplied callId outcome rtt isResult _ =>
      obtain ⟨answered, freed⟩ := called message
      apply freed.replied rfl answered
      intro limited
      obtain ⟨-, -, outcome⟩ := app.pool.calls.findCall_take callId
      rcases outcome with ⟨-, invalid⟩ | ⟨taken, -⟩
      · exact absurd (isResult.symm.trans invalid) (by decide)
      · rw [traced.slots, show (app.pool.calls.findCall callId).1 = .result from isResult] at taken
        exact ((traced.tracks limited).answer_eq_some_iff callId _).mp taken

theorem Ends.processed {behaviour : Behaviour Fault (Sys Engine)} {config : Config}
    {members : List (Bytes × Value)} {sys : Sys Engine}
    (fault : ∀ failure, behaviour.Fault sys failure)
    (change : ∀ accepted app,
      Processed config (sys.app.record (.document (.object members)))
        (Message.ofMembers members) accepted app →
      behaviour.Change sys { sys with app := app }) :
    behaviour.Ends (EventLoop.liftApp (processJsonDoc config (.object members))) sys
      fun _ _ => True := by
  unfold Behaviour.Ends EventLoop.liftApp
  rw [ensures_zoom, processJsonDoc_object]
  exact (Message.process_processed config (Message.ofMembers members) _).imp
    (fun accepted app ended => ⟨change accepted app ended.2, trivial⟩)
    fun failure _ => fault failure

/-! ## Runs -/

def tracing : Behaviour Fault (Sys Engine) :=
  .keeping (fun sys => Traced sys.app) fun _ => False

theorem tracing_turn (env : Env Engine) : Turn env tracing where
  fault := fun _ _ _ => id
  admitted := fun _ _ traced => traced.quiet [] rfl (by simp) rfl
  plumbing := by
    intro sys next app _ _ _ traced
    rw [app]
    exact traced
  logError := fun _ _ traced => traced.quiet [_] rfl (by simp [Effect.isCall]) rfl
  shutdownCalled := fun _ traced => traced.quiet [_] rfl (by simp [Effect.isCall]) rfl
  uvWrite := fun _ _ _ _ _ traced => traced.quiet [_] rfl (by simp [Effect.isCall]) rfl
  shutdownStarted := fun _ _ _ traced => traced.quiet [_] rfl (by simp [Effect.isCall]) rfl
  jobDropped := fun _ _ traced => traced.quiet [_] rfl (by simp [Effect.isCall]) rfl
  document := fun _ _ _ => Ends.processed (fun _ _ => id)
    fun _ _ processed traced => traced.processed processed
  welcomed := fun _ _ _ traced => traced.quiet [] rfl (by simp) rfl
  loginMade := fun _ _ traced => traced.registered (by decide) .login (fun _ => rfl) nofun rfl rfl
  shareMade := by
    intro sys res _ traced
    have noted : Traced (sys.app.record (.share res)) :=
      traced.quiet [_] rfl (by simp [Effect.isCall]) rfl
    exact noted.registered (by decide) (.submit · res) (fun _ => rfl) nofun rfl rfl
  dialled := fun sys _ traced =>
    Traced.dialled sys.app _ rfl (congrArg List.length traced.slots) traced.matched rfl
  shutdownEnded := fun _ _ traced => traced.quiet [] rfl (by simp) rfl
  socketClosed := fun _ _ traced => traced.quiet [_, _, _] rfl (by simp [Effect.isCall]) rfl

theorem Untouched.traced {sys : Sys Engine} (untouched : Untouched sys) :
    Traced sys.dialled.app := by
  refine Traced.dialled sys.app _ rfl ?_ ?_ rfl
  · rw [length_slots, untouched.log]
    rfl
  · rw [untouched.log]
    intro _ newer older target error rtt minerId split
    cases newer <;> cases split

theorem reachable_traced {env : Env Engine} {sys : Sys Engine}
    (reachable : (machine env).Reachable sys) : Untouched sys ∨ Traced sys.app := by
  rcases (tracing_turn env).sinceDial reachable with untouched | ⟨before, untouched, change⟩
  · exact .inl untouched
  · exact .inr (change untouched.traced)

/-- In every run of the call map that starts with a flush and registers at most
2^32 calls between two flushes, live ids are distinct and every search is decided
by the history. In every run of the event loop with that bound, each share reply
is for the miner of the share that was submitted under the answered id. -/
theorem replies_match_calls :
    (∀ run, LimitedRun run →
      run.map.liveIds.Nodup ∧ ∀ callId, run.Matches callId) ∧
    ∀ (Engine : Type) (env : Env Engine) (sys : Sys Engine), (machine env).Reachable sys →
      CallsLimited sys.app.log → RepliesMatched sys.app.log := by
  refine ⟨fun run reachable => ?_, fun Engine env sys reachable limited => ?_⟩
  · have tracked := LimitedRun.tracked reachable
    rw [← CallMap.tickets_slots]
    exact ⟨tracked.tracks.nodup, tracked.matches⟩
  · rcases reachable_traced reachable with untouched | traced
    · rw [untouched.log]
      intro newer older target error rtt minerId split
      cases newer <;> cases split
    · exact traced.matched limited

/-! ## Sample runs -/

theorem issuedSince_le_length (log : List Effect) :
    Desk.issuedSince (callDesk log).history ≤ log.length := by
  induction log with
  | nil => exact Nat.le_refl 0
  | cons effect log inductionHypothesis =>
      have issued : ∀ callId payload,
          Desk.issuedSince ((callDesk log).issue callId payload).history ≤ log.length + 1 :=
        fun _ _ => Desk.issuedSince_issue_le.trans (Nat.succ_le_succ inductionHypothesis)
      cases effect with
      | dial clear => exact Nat.zero_le _
      | login callId => exact issued callId _
      | submit callId res => exact issued callId _
      | document doc =>
          rw [callDesk_document]
          split <;> exact Nat.le_succ_of_le inductionHypothesis
      | _ => exact Nat.le_succ_of_le inductionHypothesis

theorem callsLimited_of_length {log : List Effect} (short : log.length ≤ 4294967296) :
    CallsLimited log :=
  fun older suffix =>
    ((issuedSince_le_length older).trans suffix.length_le).trans short

def acceptedText : Bytes :=
  ascii "\x7b\"id\":1,\"result\":\x7b\x7d\x7d"

def acceptedDoc : Value :=
  .object [(ascii "id", .number (some 1)), (ascii "result", .object [])]

/-- A plain connection to a server that sends the sample job and accepts a share. -/
def Env.accepting : Env Unit :=
  .plain (.ofRun (.ofTexts
    [(JobMessage.sample.text, JobMessage.sample.doc), (acceptedText, acceptedDoc)]) ethashEpoch)

/-- A share is found and accepted. -/
def acceptedSession : List Input :=
  sampleSession ++
    [(Event.foundResult sampleShare).at 20040, (Event.written firstSlot 0).at 20045,
      (Event.read (acceptedText ++ [10])).at 20050]

def Effect.isReply : Effect → Bool
  | .resultReply _ _ _ _ => true
  | _ => false

theorem replies_match_calls_sample :
    (∃ run, LimitedRun run ∧ run.map.liveIds = [1] ∧ run.map.liveIds.Nodup ∧ ∀ callId, run.Matches callId) ∧
    ∃ sys, (machine .accepting).Reachable sys ∧ sys.app.log.any Effect.isReply = true ∧
      RepliesMatched sys.app.log := by
  constructor
  · -- A login call is answered while the call of a share is outstanding.
    have start : LimitedRun ⟨CallMap.zero.flushCallMap, [.cleared]⟩ := .start ⟨.zero, rfl⟩
    have first := LimitedRun.operate start (.register .login 0 0 invalidMinerId) rfl (by decide)
    have second := first.operate (.register .result 0 0 1) rfl (by decide)
    have third := second.operate (.find 0) rfl (by decide)
    exact ⟨_, third, rfl, replies_match_calls.1 _ third⟩
  · have executed := Machine.execute_reachable Sys.start_initial (step .accepting)
      acceptedSession (fun sys => sys.app.log.any Effect.isReply = true ∧
        sys.app.log.length ≤ 4294967296) (by decide +kernel)
    generalize Machine.execute _ _ _ = state at executed
    obtain ⟨reachable, replied, short⟩ := executed
    exact ⟨state, reachable, replied,
      replies_match_calls.2 Unit .accepting state reachable (callsLimited_of_length short)⟩

end EpicMiner.EventLoop
