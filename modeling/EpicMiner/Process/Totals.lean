import EpicMiner.EventLoop.Settlement
import EpicMiner.Process.Submissions

/-!
Owns what the share totals stand for. Every reply that is counted settles a submit line of its
own, and every line is for a hash of its own, so the totals count hashes that were made.
-/

namespace EpicMiner.Mining

variable {ι : Type}

/-- What was hashed, latest first: the `thd_id` of the miner, the position of the job and the
nonce. -/
def hashesMade (thdId : ι → UInt32) (log : List (MiningEvent ι)) : List (UInt32 × Nat × UInt32) :=
  log.filterMap fun
    | .hash miner job nonce => some (thdId miner, job, nonce)
    | _ => none

theorem length_hashesMade (thdId : ι → UInt32) (log : List (MiningEvent ι)) :
    (hashesMade thdId log).length = (hashes log).length := by
  induction log with
  | nil => rfl
  | cons event older inductionHypothesis =>
      cases event with
      | hash miner job nonce => exact congrArg Nat.succ inductionHypothesis
      | _ => exact inductionHypothesis

/-- The hashes under the `thd_id` of a miner are those of the miner. -/
theorem hashesMade_of_miner [DecidableEq ι] {thdId : ι → UInt32}
    (distinct : Function.Injective thdId) (miner : ι) (log : List (MiningEvent ι)) :
    ((hashesMade thdId log).filter fun made => made.1 = thdId miner).map Prod.snd =
      hashesBy miner log := by
  induction log with
  | nil => rfl
  | cons event older inductionHypothesis =>
      cases event with
      | hash other job nonce =>
          rw [hashesBy_hash, ← inductionHypothesis]
          by_cases same : other = miner
          · simp [hashesMade, same]
          · simp [hashesMade, same, distinct.ne same]
      | claim other job chunk =>
          rw [hashesBy_other rfl]
          exact inductionHypothesis
      | storeNonce =>
          rw [hashesBy_other rfl]
          exact inductionHypothesis

end EpicMiner.Mining

namespace EpicMiner.Process

open EpicMiner.Library
open EpicMiner.Data
open EpicMiner.EventLoop (submitted submittedResults replies settled MinerResult)
open EpicMiner.Mining (Found hashesBy hashesMade)

variable {Engine ι : Type} [DecidableEq ι] {env : Env Engine ι} {state : State Engine ι}

/-! ## Lines and hashes -/

/-- The hash that a result stands for, with the miner it names. -/
def made (found : Found) : UInt32 × Nat × UInt32 :=
  (found.result.minerId, found.work)

omit [DecidableEq ι] in
theorem sent_made_of_miner (state : State Engine ι) (miner : ι) :
    ((state.sent.map made).filter fun pair => pair.1 = env.thdId miner).map Prod.snd =
      (state.sentBy env miner).map Found.work := by
  rw [List.filter_map, List.map_map]
  rfl

/-- The results that were sent stand for different hashes: for those of one miner it is their
order that says so, and those of two miners have different labels. -/
theorem InOrder.sent_subperm (inOrder : InOrder env state)
    (distinct : Function.Injective env.thdId) :
    (state.sent.map made).Subperm (hashesMade env.thdId state.mining.log) := by
  apply subperm_of_labels
  intro pair member
  obtain ⟨found, sent, rfl⟩ := List.mem_map.mp member
  obtain ⟨miner, isSender⟩ := inOrder.sender found sent
  have isLabel : (made found).1 = env.thdId miner := isSender
  rw [isLabel, sent_made_of_miner, Mining.hashesMade_of_miner distinct]
  exact (inOrder.sentBy_sublist miner).subperm

/-! ## Replies -/

/-- A reply is counted for the miner that made the hash, and the hash is a share for its job. -/
def BackedBy (hashes : Mining.Hashes) (published : PublishedJobs) (reply : EventLoop.Reply)
    (work : UInt32 × Nat × UInt32) : Prop :=
  reply.minerId = work.1 ∧
    ∃ res, res.minerId = work.1 ∧ ShareFor hashes published res work.2

/-- Every reply that is counted is backed by a hash of its own, so the share totals never exceed
the number of hashes. -/
theorem replies_for_own_hashes (env : Env Engine ι) (distinct : Function.Injective env.thdId)
    (state : State Engine ι) (reachable : (machine env).Reachable state) :
    (∃ works, works.Subperm (hashesMade env.thdId state.mining.log) ∧
      List.Forall₂ (BackedBy env.hashes state.mining.published) (replies state.sys.app.log)
        works) ∧
    state.sys.app.executor.poolCtr.acceptedSharesCnt.toNat +
        state.sys.app.executor.poolCtr.rejectedSharesCnt.toNat ≤
      (Mining.hashes state.mining.log).length := by
  have inOrder := reachable_inOrder distinct reachable
  have loop := (reachable_consistent reachable).loop
  have lines : submittedResults state.sys.app.log = state.sent.map Found.result :=
    sent_submitted reachable
  have subperm := EventLoop.settled_subperm state.sys.app.log
  rw [lines] at subperm
  obtain ⟨picked, pickedSubperm, settles⟩ := exists_of_subperm_map subperm
  constructor
  · refine ⟨picked.map made, ?_, ?_⟩
    · exact (subperm_map made pickedSubperm).trans (inOrder.sent_subperm distinct)
    · have matched := EventLoop.reachable_settles loop
      unfold EventLoop.Settles at matched
      rw [settles, List.forall₂_map_right_iff] at matched
      rw [List.forall₂_map_right_iff, List.forall₂_iff_zip]
      refine ⟨matched.length_eq, fun {reply found} both => ?_⟩
      have isMiner := (List.forall₂_iff_zip.mp matched).2 both
      have member := pickedSubperm.subset (List.of_mem_zip both).2
      obtain ⟨job, isJob, genuine⟩ := inOrder.sound found member
      exact ⟨isMiner.symm, found.result, rfl, job, isJob, genuine, rfl⟩
  · have totals := EventLoop.totals_le_submitted loop
    have sent := (inOrder.sent_subperm distinct).length_le
    have counted := congrArg List.length lines
    rw [EventLoop.submittedResults, List.length_map, List.length_map] at counted
    rw [List.length_map, Mining.length_hashesMade] at sent
    omega

/-- The first share is written, and the server accepts it. -/
def acceptedShare : List (Input Unit) :=
  firstShare ++
    [.callback ((EventLoop.Event.written EventLoop.firstSlot 0).at 20105),
      .callback ((EventLoop.Event.read (EventLoop.acceptedText ++ [10])).at 20110)]

theorem replies_for_own_hashes_acceptedShare :
    ∃ state : State Unit Unit, replies state.sys.app.log = [⟨true, 0⟩] ∧
      (∃ works, works.Subperm (hashesMade Env.sample.thdId state.mining.log) ∧
        List.Forall₂ (BackedBy Env.sample.hashes state.mining.published)
          (replies state.sys.app.log) works) ∧
      state.sys.app.executor.poolCtr.acceptedSharesCnt.toNat +
          state.sys.app.executor.poolCtr.rejectedSharesCnt.toNat ≤
        (Mining.hashes state.mining.log).length := by
  have executed := Machine.execute_reachable
    (State.start_initial (fun _ : Unit => .rxCpuMiner) default) (State.step .sample)
    acceptedShare (fun state => replies state.sys.app.log = [⟨true, 0⟩]) (by decide +kernel)
  have distinct : Function.Injective Env.sample.thdId := fun _ _ _ => rfl
  exact ⟨_, executed.2, replies_for_own_hashes .sample distinct _ executed.1⟩

end EpicMiner.Process
