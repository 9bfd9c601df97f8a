import EpicMiner.Mining.Nonces
import EpicMiner.Process.Shares

/-!
Owns the order of the submit lines. The lines of each miner are for hashes that it made, each
for its own and in the order in which they were made; a nonce that no two miners hash for a
job is therefore never submitted twice for it.
-/

namespace EpicMiner.Mining

open EpicMiner.Data

variable {ι : Type}

/-! ## The hashes of a miner -/

def MiningEvent.miner : MiningEvent ι → Option ι
  | .claim miner _ _ => some miner
  | .hash miner _ _ => some miner
  | .storeNonce => none

def Found.work (found : Found) : Nat × UInt32 :=
  (found.job, found.result.nonce)

variable [DecidableEq ι]

/-- What the miner hashed, as position of the job and nonce, latest first. -/
def hashesBy (miner : ι) (log : List (MiningEvent ι)) : List (Nat × UInt32) :=
  hashes (log.filter fun event => event.miner = some miner)

theorem hashesBy_sublist (miner : ι) (log : List (MiningEvent ι)) :
    (hashesBy miner log).Sublist (hashes log) :=
  (List.filter_sublist ..).filterMap _

theorem hashesBy_hash (miner other : ι) (job : Nat) (nonce : UInt32)
    (older : List (MiningEvent ι)) :
    hashesBy miner (.hash other job nonce :: older) =
      if other = miner then (job, nonce) :: hashesBy miner older else hashesBy miner older := by
  by_cases same : other = miner <;> simp [hashesBy, hashes, MiningEvent.miner, MiningEvent.hashed, same]

theorem hashesBy_other {miner : ι} {event : MiningEvent ι} (other : event.hashed = none)
    (older : List (MiningEvent ι)) : hashesBy miner (event :: older) = hashesBy miner older := by
  unfold hashesBy hashes
  rw [List.filter_cons]
  split
  · rw [List.filterMap_cons_none other]
  · rfl

/-- Where no work is hashed twice, it has one miner. -/
theorem miner_unique {log : List (MiningEvent ι)} (once : (hashes log).Nodup) {miner other : ι}
    {work : Nat × UInt32} (made : work ∈ hashesBy miner log)
    (madeOther : work ∈ hashesBy other log) : miner = other := by
  induction log with
  | nil => cases made
  | cons event older inductionHypothesis =>
      cases event with
      | hash actor job nonce =>
          obtain ⟨fresh, once⟩ := List.nodup_cons.mp once
          have earlier : ∀ {hasher : ι}, work ∈ hashesBy hasher (.hash actor job nonce :: older) →
              work = (job, nonce) ∧ actor = hasher ∨ work ∈ hashesBy hasher older := by
            intro hasher member
            rw [hashesBy_hash] at member
            split at member
            case isTrue same => exact (List.mem_cons.mp member).imp_left fun now => ⟨now, same⟩
            case isFalse => exact .inr member
          have notBefore : ∀ {hasher : ι}, work = (job, nonce) → work ∉ hashesBy hasher older :=
            fun now member => fresh (now ▸ (hashesBy_sublist _ _).subset member)
          rcases earlier made with ⟨now, isMiner⟩ | before <;>
            rcases earlier madeOther with ⟨nowOther, isOther⟩ | beforeOther
          · exact isMiner.symm.trans isOther
          · exact absurd beforeOther (notBefore now)
          · exact absurd before (notBefore nowOther)
          · exact inductionHypothesis once before beforeOther
      | claim actor job chunk =>
          rw [hashesBy_other rfl] at made madeOther
          exact inductionHypothesis once made madeOther
      | storeNonce =>
          rw [hashesBy_other rfl] at made madeOther
          exact inductionHypothesis once made madeOther

namespace State

variable {state next : State ι} {getEpochNumber : Int32 → Int32}

theorem hashesBy_access (op : SharedOp) (miner : ι) :
    hashesBy miner (state.access getEpochNumber op).log = hashesBy miner state.log := by
  cases op with
  | storeNonce => exact hashesBy_other rfl state.log
  | publishIdle =>
      unfold access
      dsimp only
      split <;> rfl
  | adjustToSeed seed => rfl
  | adjustToBlock height => rfl
  | publish job => rfl

/-- An access adds to the hashes of a miner that makes one, and to those of no other. -/
theorem hashesBy_step {input : Input ι} (stepped : state.step getEpochNumber input = some next)
    (miner : ι) :
    hashesBy miner next.log =
      if input = .miner miner ∧ (state.threads miner).phase = .hash then
        (state.threads miner).work :: hashesBy miner state.log
      else hashesBy miner state.log := by
  cases taken_of_step stepped with
  | happen happening => simp
  | event op rest script idle =>
      rw [if_neg (by simp)]
      have accessed : hashesBy miner
          (({ state with script := rest } : State ι).access getEpochNumber op).log =
            hashesBy miner state.log := hashesBy_access op miner
      exact accessed
  | request ref dataset taken => exact (if_neg (by simp)).symm
  | builder ref index dataset taken => exact (if_neg (by simp)).symm
  | miner acting next access =>
      have still : (state.threads acting).phase ≠ .hash →
          hashesBy miner next.log = hashesBy miner state.log →
            hashesBy miner next.log =
              if Input.miner acting = .miner miner ∧ (state.threads miner).phase = .hash then
                (state.threads miner).work :: hashesBy miner state.log
              else hashesBy miner state.log := by
        intro elsewhere same
        rw [if_neg, same]
        rintro ⟨isActing, phase⟩
        cases isActing
        exact elsewhere phase
      cases access with
      | hash phase =>
          rw [record_log, hashesBy_hash, withThread_log]
          by_cases same : acting = miner
          · subst same
            rw [if_pos rfl, if_pos ⟨rfl, phase⟩]
            rfl
          · rw [if_neg same, if_neg fun acts => same (Input.miner.inj acts.1)]
      | claim phase claims =>
          apply still (by simp [phase])
          rw [record_log, hashesBy_other (by rfl), withThread_log]
      | wait after waits goes =>
          exact still (fun phase => by simp [phase] at waits) rfl
      | _ => exact still (by simp [*]) rfl

end State

end EpicMiner.Mining

namespace EpicMiner.Process

open EpicMiner.Library
open EpicMiner.Data
open EpicMiner.EventLoop (submitted MinerResult)
open EpicMiner.Mining (Hashes Found Genuine hashesBy)

variable {Engine ι : Type} [DecidableEq ι] {env : Env Engine ι} {state next : State Engine ι}

/-! ## The results of a miner -/

/-- The results of a miner that a submit line was formatted for, latest first. -/
def State.sentBy (env : Env Engine ι) (state : State Engine ι) (miner : ι) : List Found :=
  state.sent.filter fun found => found.result.minerId = env.thdId miner

/-- The results of a miner on their way to the pool, latest first. -/
def State.underway (env : Env Engine ι) (state : State Engine ι) (miner : ι) : List Found :=
  (state.resultQ miner).reverse ++ state.sentBy env miner

/-- Queues and submit lines hold results of hashes, in the order of the hashes. -/
structure InOrder (env : Env Engine ι) (state : State Engine ι) : Prop where
  named : ∀ miner, ∀ found ∈ state.resultQ miner, found.result.minerId = env.thdId miner
  sender : ∀ found ∈ state.sent, ∃ miner, found.result.minerId = env.thdId miner
  sound : ∀ found ∈ state.sent, Sound env.hashes state.mining.published found
  underway : ∀ miner,
    ((state.underway env miner).map Found.work).Sublist (hashesBy miner state.mining.log)

namespace InOrder

/-- A callback leaves the threads alone, and the results of each miner in order. -/
theorem called (inOrder : InOrder env state) {input : EventLoop.Input}
    (called : State.Called env input state next)
    (queues : ∀ miner, (next.resultQ miner).Sublist (state.resultQ miner))
    (sender : ∀ found ∈ next.sent, found ∈ state.sent ∨
      ∃ miner, found.result.minerId = env.thdId miner ∧
        Sound env.hashes state.mining.published found)
    (underway : ∀ miner, (next.underway env miner).Sublist (state.underway env miner)) :
    InOrder env next := by
  have published : next.mining.published = state.mining.published := by rw [called.mining]
  have log : next.mining.log = state.mining.log := by rw [called.mining]
  constructor
  case named =>
    exact fun miner found member => inOrder.named miner found ((queues miner).subset member)
  case sender =>
    intro found member
    rcases sender found member with before | ⟨miner, isSender, -⟩
    · exact inOrder.sender found before
    · exact ⟨miner, isSender⟩
  case sound =>
    intro found member
    rw [published]
    rcases sender found member with before | ⟨-, -, sound⟩
    · exact inOrder.sound found before
    · exact sound
  case underway =>
    intro miner
    rw [log]
    exact ((underway miner).map _).trans (inOrder.underway miner)

/-- The front of a queue is sent, or dropped where there is no job to send it for. -/
theorem drain (inOrder : InOrder env state) (consistent : Consistent env state)
    (distinct : Function.Injective env.thdId) {miner : ι} {input : EventLoop.Input}
    {found : Found} {rest : List Found} (queue : state.resultQ miner = found :: rest)
    (called : State.Called env input state next)
    (resultQ : next.resultQ = Function.update state.resultQ miner rest)
    (sent : next.sent =
      if state.sys.app.pool.state = .hasJob then found :: state.sent else state.sent) :
    InOrder env next := by
  have front : found ∈ state.resultQ miner := queue ▸ .head _
  have queues : ∀ other, (next.resultQ other).Sublist (state.resultQ other) := by
    intro other
    rw [resultQ]
    by_cases same : other = miner
    · subst same
      rw [Function.update_self, queue]
      exact List.sublist_cons_self ..
    · rw [Function.update_of_ne same]
  refine inOrder.called called queues ?_ ?_
  · intro result member
    rw [sent] at member
    split at member
    case isFalse => exact .inl member
    case isTrue =>
      rcases List.mem_cons.mp member with rfl | before
      · exact .inr ⟨miner, inOrder.named miner result front, consistent.queued miner result front⟩
      · exact .inl before
  · intro other
    have isSender := inOrder.named miner found front
    unfold State.underway State.sentBy
    rw [resultQ, sent]
    by_cases same : other = miner
    · subst same
      rw [Function.update_self, queue, List.reverse_cons, List.append_assoc]
      refine List.Sublist.append_left ?_ _
      split
      · rw [List.filter_cons_of_pos (by simpa using isSender)]
        exact List.Sublist.refl _
      · exact List.sublist_append_right ..
    · rw [Function.update_of_ne same]
      have foreign : found.result.minerId ≠ env.thdId other := by
        rw [isSender]
        exact fun ids => same (distinct ids).symm
      refine List.Sublist.append_left ?_ _
      split
      · rw [List.filter_cons_of_neg (by simpa using foreign)]
      · exact List.Sublist.refl _

/-- An access of a thread: what is found is found by a hash. -/
theorem access (inOrder : InOrder env state) {input : Mining.State.Input ι}
    (other : ∀ happening, input ≠ .happen happening)
    (taken : state.mining.step env.getEpochNumber input = some next.mining)
    (resultQ : next.resultQ = state.queuesAfter env input) (sent : next.sent = state.sent) :
    InOrder env next := by
  have grows := (accessed_of_step taken other).grows
  have hashed := Mining.State.hashesBy_step taken
  have still : ∀ {miner : ι}, ¬ (input = .miner miner ∧
      (state.mining.threads miner).phase = .hash) →
        next.resultQ miner = state.resultQ miner := by
    intro miner elsewhere
    rw [resultQ]
    unfold State.queuesAfter
    split
    case h_2 => rfl
    case h_1 acting =>
      dsimp only
      split
      case isFalse => rfl
      case isTrue hashing =>
        rw [Function.update_of_ne]
        rintro rfl
        exact elsewhere ⟨rfl, hashing⟩
  have found : ∀ {miner : ι}, input = .miner miner → (state.mining.threads miner).phase = .hash →
      next.resultQ miner = state.resultQ miner ++
        (state.mining.threads miner).finds env.hashes state.mining.datasets (env.thdId miner) := by
    intro miner acts hashing
    rw [resultQ, acts]
    simp [State.queuesAfter, hashing]
  constructor
  case named =>
    intro miner result member
    by_cases hashes : input = .miner miner ∧ (state.mining.threads miner).phase = .hash
    · rw [found hashes.1 hashes.2] at member
      rcases List.mem_append.mp member with before | now
      · exact inOrder.named miner result before
      · unfold Mining.Thread.finds at now
        split at now
        · rw [List.mem_singleton.mp now]
        · cases now
    · rw [still hashes] at member
      exact inOrder.named miner result member
  case sender =>
    rw [sent]
    exact inOrder.sender
  case sound =>
    rw [sent]
    exact fun result member => (inOrder.sound result member).grow grows
  case underway =>
    intro miner
    rw [hashed miner]
    have before := inOrder.underway miner
    unfold State.underway State.sentBy at before ⊢
    rw [sent]
    by_cases hashes : input = .miner miner ∧ (state.mining.threads miner).phase = .hash
    · rw [if_pos hashes, found hashes.1 hashes.2, List.reverse_append, List.append_assoc]
      unfold Mining.Thread.finds
      split
      · exact before.cons_cons _
      · exact before.cons _
    · rw [if_neg hashes, still hashes]
      exact before

theorem step (inOrder : InOrder env state) (consistent : Consistent env state)
    (distinct : Function.Injective env.thdId) {input : Input ι}
    (taken : State.Taken env state next input) : InOrder env next := by
  cases taken with
  | callback input other called resultQ sent =>
      refine inOrder.called called ?_ ?_ ?_
      · rw [resultQ]
        exact fun _ => List.Sublist.refl _
      · rw [sent]
        exact fun _ => .inl
      · intro miner
        unfold State.underway State.sentBy
        rw [resultQ, sent]
  | drain miner input found rest queue called resultQ sent =>
      exact inOrder.drain consistent distinct queue called resultQ sent
  | access input other taken sys resultQ sent => exact inOrder.access other taken resultQ sent

end InOrder

theorem reachable_inOrder (distinct : Function.Injective env.thdId)
    (reachable : (machine env).Reachable state) : InOrder env state := by
  refine reachable.invariant ?_ ?_
  · intro start initial
    constructor
    case named => simp [initial.resultQ]
    case sender => simp [initial.sent]
    case sound => simp [initial.sent]
    case underway =>
      intro miner
      simp [State.underway, State.sentBy, initial.resultQ, initial.sent]
  · intro before input after reached inOrder stepped _
    exact inOrder.step (reachable_consistent reached) distinct (State.taken_of_step stepped)

/-! ## Submit lines -/

/-- A result is a share for the job at a position in memory, with a nonce. -/
def ShareFor (hashes : Hashes) (published : PublishedJobs) (res : MinerResult)
    (work : Nat × UInt32) : Prop :=
  ∃ job, published.jobs[work.1]? = some job ∧ Genuine hashes job res ∧ res.nonce = work.2

theorem sent_submitted (reachable : (machine env).Reachable state) :
    (submitted state.sys.app.log).map Prod.fst = state.sent.map Found.result := by
  have sentAs : SentAs (fun _ _ => True) state :=
    sentAs_of_run (fun _ _ _ _ _ _ _ _ _ _ => trivial) reachable
  unfold SentAs at sentAs
  generalize submitted state.sys.app.log = lines at sentAs
  generalize state.sent = results at sentAs
  induction sentAs with
  | nil => rfl
  | cons line _ inductionHypothesis => rw [List.map_cons, List.map_cons, line.1, inductionHypothesis]

theorem InOrder.sharesFor (inOrder : InOrder env state) {results : List Found}
    (areSent : results.Sublist state.sent) :
    List.Forall₂ (ShareFor env.hashes state.mining.published) (results.map Found.result)
      (results.map Found.work) := by
  rw [List.forall₂_map_left_iff, List.forall₂_map_right_iff, List.forall₂_same]
  intro found member
  obtain ⟨job, isJob, genuine⟩ := inOrder.sound found (areSent.subset member)
  exact ⟨job, isJob, genuine, rfl⟩

theorem InOrder.sentBy_sublist (inOrder : InOrder env state) (miner : ι) :
    ((state.sentBy env miner).map Found.work).Sublist (hashesBy miner state.mining.log) :=
  ((List.sublist_append_right ..).map _).trans (inOrder.underway miner)

/-- The submit lines of a miner are shares for some of its hashes, each for its own, in the
order in which the hashes were made. -/
theorem submissions_in_order (env : Env Engine ι) (distinct : Function.Injective env.thdId)
    (state : State Engine ι) (reachable : (machine env).Reachable state) (miner : ι) :
    ∃ works, works.Sublist (hashesBy miner state.mining.log) ∧
      List.Forall₂ (ShareFor env.hashes state.mining.published)
        (((submitted state.sys.app.log).map Prod.fst).filter fun res =>
          res.minerId = env.thdId miner) works := by
  have inOrder := reachable_inOrder distinct reachable
  refine ⟨(state.sentBy env miner).map Found.work, inOrder.sentBy_sublist miner, ?_⟩
  rw [sent_submitted reachable, List.filter_map]
  exact inOrder.sharesFor List.filter_sublist

/-! ## No share twice -/

/-- Two entries of one list of results are of one miner and of its hashes, or of two. -/
theorem InOrder.sent_nodup (inOrder : InOrder env state)
    (once : (Mining.hashes state.mining.log).Nodup) : (state.sent.map Found.work).Nodup := by
  have madeBy : ∀ {miner : ι} {found : Found}, found ∈ state.sent →
      found.result.minerId = env.thdId miner →
        found.work ∈ hashesBy miner state.mining.log := by
    intro miner found member isSender
    apply (inOrder.sentBy_sublist miner).subset
    exact List.mem_map_of_mem (List.mem_filter.mpr ⟨member, by simpa using isSender⟩)
  rw [List.Nodup, List.pairwise_map, List.pairwise_iff_forall_sublist]
  intro later earlier areSent same
  have laterSent : later ∈ state.sent := areSent.subset (.head _)
  have earlierSent : earlier ∈ state.sent := areSent.subset (.tail _ (.head _))
  obtain ⟨miner, laterSender⟩ := inOrder.sender later laterSent
  obtain ⟨other, earlierSender⟩ := inOrder.sender earlier earlierSent
  have oneMiner : miner = other :=
    Mining.miner_unique once (madeBy laterSent laterSender) (same ▸ madeBy earlierSent earlierSender)
  subst oneMiner
  have both : [later, earlier].Sublist (state.sentBy env miner) := by
    have kept := areSent.filter fun found => found.result.minerId = env.thdId miner
    simpa [laterSender, earlierSender, State.sentBy] using kept
  have twice : [later.work, later.work].Sublist (Mining.hashes state.mining.log) := by
    have works := both.map Found.work
    rw [List.map_cons, List.map_cons, List.map_nil, ← same] at works
    exact (works.trans (inOrder.sentBy_sublist miner)).trans (Mining.hashesBy_sublist _ _)
  exact List.nodup_iff_sublist.mp once _ twice

theorem reachable_scheduled (reachable : (machine env).Reachable state) :
    Mining.Scheduled state.mining := by
  have initially : ∀ start, (machine env).Initial start → Mining.Scheduled start.mining :=
    fun _ initial => Mining.scheduled_start initial.mining
  refine reachable.invariant initially ?_
  intro before input after reached scheduled stepped _
  have resumed : ∀ {begun : EventLoop.Input}, State.Called env begun before after →
      Mining.Scheduled after.mining := by
    intro begun called
    rw [called.mining]
    exact scheduled.frame rfl rfl scheduled.loops fun _ _ => rfl
  cases State.taken_of_step stepped with
  | callback input other called resultQ sent => exact resumed called
  | drain miner input found rest queue called resultQ sent => exact resumed called
  | access input other taken sys resultQ sent => exact scheduled.step taken

/-- Where the counter was never set to 0 between two claims for one job, no nonce is submitted
twice for a job, by whichever miners. -/
theorem shares_submitted_once (env : Env Engine ι) (distinct : Function.Injective env.thdId)
    (state : State Engine ι) (reachable : (machine env).Reachable state)
    (never : Mining.NeverReset state.mining.log)
    (few : (Mining.claims state.mining.log).length < Mining.counterChunks) :
    ∃ works : List (Nat × UInt32), works.Nodup ∧
      List.Forall₂ (ShareFor env.hashes state.mining.published)
        ((submitted state.sys.app.log).map Prod.fst) works := by
  have inOrder := reachable_inOrder distinct reachable
  have once := ((reachable_scheduled reachable).distinct never few).made
  refine ⟨state.sent.map Found.work, inOrder.sent_nodup once, ?_⟩
  rw [sent_submitted reachable]
  exact inOrder.sharesFor (List.Sublist.refl _)

/-! ### Two shares -/

instance decidableNeverReset :
    (log : List (Mining.MiningEvent ι)) → Decidable (Mining.NeverReset log)
  | [] => .isTrue trivial
  | .claim _ job _ :: older =>
      have := decidableNeverReset older
      inferInstanceAs (Decidable (Mining.KeptSinceClaim job older ∧ Mining.NeverReset older))
  | .storeNonce :: older => decidableNeverReset older
  | .hash _ _ _ :: older => decidableNeverReset older

/-- The miner goes on with the job of its first share, and finds another one. -/
def nextShare : List (Input Unit) :=
  firstShare ++ List.replicate 3 (.access (.miner ())) ++
    [.drain () (EventLoop.Event.heartbeat.at 20200)]

theorem reachable_nextShare :
    ∃ state : State Unit Unit, (machine .sample).Reachable state ∧
      (submitted state.sys.app.log).length = 2 ∧ Mining.NeverReset state.mining.log ∧
        (Mining.claims state.mining.log).length < Mining.counterChunks :=
  ⟨_, Machine.execute_reachable
    (State.start_initial (fun _ : Unit => .rxCpuMiner) default) (State.step .sample) nextShare
    (fun state => (submitted state.sys.app.log).length = 2 ∧ Mining.NeverReset state.mining.log ∧
      (Mining.claims state.mining.log).length < Mining.counterChunks) (by decide +kernel)⟩

theorem submissions_in_order_nextShare :
    ∃ state : State Unit Unit, (submitted state.sys.app.log).length = 2 ∧
      ∃ works, works.Sublist (hashesBy () state.mining.log) ∧
        List.Forall₂ (ShareFor Env.sample.hashes state.mining.published)
          (((submitted state.sys.app.log).map Prod.fst).filter fun res =>
            res.minerId = Env.sample.thdId ()) works := by
  obtain ⟨state, reachable, submits, -, -⟩ := reachable_nextShare
  have distinct : Function.Injective Env.sample.thdId := fun _ _ _ => rfl
  exact ⟨state, submits, submissions_in_order .sample distinct state reachable ()⟩

theorem shares_submitted_once_nextShare :
    ∃ state : State Unit Unit, (submitted state.sys.app.log).length = 2 ∧
      ∃ works : List (Nat × UInt32), works.Nodup ∧
        List.Forall₂ (ShareFor Env.sample.hashes state.mining.published)
          ((submitted state.sys.app.log).map Prod.fst) works := by
  obtain ⟨state, reachable, submits, never, few⟩ := reachable_nextShare
  have distinct : Function.Injective Env.sample.thdId := fun _ _ _ => rfl
  exact ⟨state, submits, shares_submitted_once .sample distinct state reachable never few⟩

end EpicMiner.Process
