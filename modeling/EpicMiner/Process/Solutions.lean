import EpicMiner.EventLoop.Provenance
import EpicMiner.Process.Shares

/-!
Owns the whole way from a message of the pool to a share: every submit line is that of a
solution to a job message that was received before. What a solution is, is said in terms of
the message alone, as the server checks it.
-/

namespace EpicMiner.Process

open EpicMiner.Library
open EpicMiner.Data
open EpicMiner.EventLoop
  (Effect MinerResult JobParams JobMembers Carries JobsOffered Offered offeredJob publishedBy)
open EpicMiner.Mining (Hashes Found Genuine HashedFor CpuMiner)

variable {Engine ι : Type}

/-! ## Solutions -/

/-- The hash of a message for a nonce. What RandomX and ProgPow read of a dataset is left
open. -/
def HashOf (hashes : Hashes) (params : JobParams) (nonce : UInt32) (hash : V32) : Prop :=
  let blob := params.blobBytes
  match EventLoop.powTypeOf params.powAlgo with
  | some .randomx =>
      4 ≤ blob.length ∧ ∃ contents,
        hash = hashes.randomx contents (blob.take (blob.length - 4) ++ le32 nonce)
  | some .progpow =>
      8 ≤ blob.length ∧ ∃ contents wide,
        hash = hashes.progpow contents params.height
          (hashes.keccak256 (blob.take (blob.length - 8))) wide ∧
        wide.toNat = nonce.toNat +
          (ofLe32 ((blob.drop (blob.length - 8)).take 4)).toNat * 4294967296
  | _ => False

/-- A result that solves a job message. -/
structure Solves (hashes : Hashes) (params : JobParams) (res : MinerResult) : Prop where
  id : cString res.id.cells = cString params.jobid
  hash : HashOf hashes params res.nonce res.resHash
  below : Mining.bigEndian res.resHash < params.targetWord.toNat * Nat.pow 2 224

/-- A miner of the right kind can index the blob of the job. -/
def Indexed (job : MinerJob) : Prop :=
  ∃ miner : CpuMiner, job.type = miner.powType ∧ miner.Fits job

section Solutions

variable {hashes : Hashes} {params : JobParams} {job : MinerJob}

theorem slice_blob (carries : Carries params job) {offset length : Nat}
    (inside : offset + length ≤ params.blobBytes.length) :
    job.blob.slice offset length = (params.blobBytes.drop offset).take length := by
  rw [← carries.blob]
  simp only [Buffer.slice, List.drop_zero, List.drop_take, List.take_take]
  congr 1
  omega

theorem toNat_blobLen (carries : Carries params job) :
    job.blobLen.toNat = params.blobBytes.length := by
  have length := carries.length
  rw [carries.blobLen]
  simp
  omega

theorem toNat_noncePos (carries : Carries params job) :
    job.noncePos.toNat = (params.blobBytes.length + 4294967292) % 4294967296 := by
  have length := carries.length
  rw [carries.noncePos, UInt32.toNat_sub]
  simp
  omega

theorem hashOf_hashedFor (carries : Carries params job) (indexed : Indexed job)
    {nonce : UInt32} {hash : V32} (hashed : HashedFor hashes job (le32 nonce) hash) :
    HashOf hashes params nonce hash := by
  obtain ⟨miner, type, fits⟩ := indexed
  have short := carries.length
  have blobLen := toNat_blobLen carries
  have noncePos := toNat_noncePos carries
  have named := carries.type
  unfold HashedFor at hashed
  unfold HashOf
  cases miner with
  | rxCpuMiner =>
      have isRandomx : job.type = .randomx := type
      rw [isRandomx] at hashed named
      have fits : job.noncePos.toNat + 4 ≤ 512 := fits
      have long : 4 ≤ params.blobBytes.length := by omega
      have place : job.noncePos.toNat = params.blobBytes.length - 4 := by omega
      obtain ⟨contents, same⟩ := hashed
      have written := job.blob.slice_write_behind job.noncePos.toNat (le32 nonce)
        (by rw [length_le32]; exact fits)
      rw [length_le32, place, Nat.sub_add_cancel long, slice_blob carries (by omega),
        List.drop_zero] at written
      rw [place, blobLen, written] at same
      simp only [named]
      exact ⟨long, contents, same⟩
  | ppCpuMiner =>
      have isProgpow : job.type = .progpow := type
      rw [isProgpow] at hashed named
      obtain ⟨front, -, long, -⟩ : 4 ≤ job.noncePos.toNat ∧ job.noncePos.toNat ≤ 512 ∧
        8 ≤ job.blobLen.toNat ∧ job.blobLen.toNat ≤ 520 := fits
      rw [blobLen] at long
      have place : job.noncePos.toNat - 4 = params.blobBytes.length - 8 := by omega
      obtain ⟨contents, wide, same, value⟩ := hashed
      rw [blobLen, slice_blob carries (by omega), List.drop_zero, carries.height] at same
      rw [ofLe32_le32, Buffer.read32, place, slice_blob carries (by omega)] at value
      simp only [named]
      exact ⟨long, contents, wide, same, value⟩

theorem solves_genuine (carries : Carries params job) (indexed : Indexed job)
    {res : MinerResult} (genuine : Genuine hashes job res) : Solves hashes params res where
  id := by rw [genuine.id, carries.id]
  hash := hashOf_hashedFor carries indexed genuine.hashed
  below := carries.target ▸ genuine.below

end Solutions

/-! ## Queued results -/

/-- A result is a share for a published job that its miner could index. -/
def Proper (hashes : Hashes) (published : PublishedJobs) (found : Found) : Prop :=
  ∃ job, published.jobs[found.job]? = some job ∧ Indexed job ∧ Genuine hashes job found.result

theorem Proper.grow {hashes : Hashes} {published later : PublishedJobs} {found : Found}
    (proper : Proper hashes published found) (grows : Grows published later) :
    Proper hashes later found := by
  obtain ⟨job, isJob, indexed, genuine⟩ := proper
  exact ⟨job, grows _ job isJob, indexed, genuine⟩

/-- In its loop, a thread can index the job that it points to. -/
theorem indexed_of_worksOn {thread : Mining.Thread} {job : MinerJob}
    (works : thread.WorksOn job) (hashing : thread.phase = .hash) : Indexed job := by
  have fits := works.fits (by simp [hashing])
  refine ⟨thread.miner, works.type, ?_⟩
  rw [works.copied] at fits
  cases miner : thread.miner with
  | rxCpuMiner | ppCpuMiner =>
      rw [miner] at fits
      exact fits

/-- Every queued result is. -/
def QueuesProper (env : Env Engine ι) (state : State Engine ι) : Prop :=
  ∀ miner, ∀ found ∈ state.resultQ miner, Proper env.hashes state.mining.published found

namespace QueuesProper

variable [DecidableEq ι] {env : Env Engine ι} {state next : State Engine ι}

theorem queuesAfter (proper : QueuesProper env state) (consistent : Consistent env state)
    (input : Mining.State.Input ι) (miner : ι) (found : Found)
    (member : found ∈ state.queuesAfter env input miner) :
    Proper env.hashes state.mining.published found := by
  unfold State.queuesAfter at member
  split at member
  case h_2 => exact proper miner found member
  case h_1 worker =>
    dsimp only at member
    split at member
    case isFalse => exact proper miner found member
    case isTrue hashing =>
      by_cases same : miner = worker
      · subst same
        rw [Function.update_self] at member
        rcases List.mem_append.mp member with earlier | now
        · exact proper miner found earlier
        · obtain ⟨job, isJob, works⟩ := consistent.engaged miner (by simp [hashing])
          obtain ⟨position, genuine⟩ := works.finds_genuine hashing now
          exact ⟨job, position ▸ isJob, indexed_of_worksOn works hashing, genuine⟩
      · rw [Function.update_of_ne same] at member
        exact proper miner found member

theorem step (proper : QueuesProper env state) (consistent : Consistent env state)
    {input : Input ι} (taken : State.Taken env state next input) : QueuesProper env next := by
  intro miner found member
  cases taken with
  | callback input other called resultQ sent =>
      rw [resultQ] at member
      rw [called.mining]
      exact proper miner found member
  | drain worker input front rest queue called resultQ sent =>
      rw [resultQ] at member
      rw [called.mining]
      by_cases same : miner = worker
      · subst same
        rw [Function.update_self] at member
        exact proper miner found (queue ▸ .tail _ member)
      · rw [Function.update_of_ne same] at member
        exact proper miner found member
  | access input other taken sys resultQ sent =>
      rw [resultQ] at member
      exact (proper.queuesAfter consistent input miner found member).grow
        (accessed_of_step taken other).grows

end QueuesProper

theorem reachable_queuesProper [DecidableEq ι] {env : Env Engine ι} {state : State Engine ι}
    (reachable : (machine env).Reachable state) : QueuesProper env state := by
  have initially : ∀ start, (machine env).Initial start → QueuesProper env start := by
    intro start initial miner found member
    rw [initial.resultQ miner] at member
    cases member
  apply reachable.invariant initially
  exact fun before _ _ reached proper stepped _ =>
    proper.step (reachable_consistent reached) (State.taken_of_step stepped)

/-! ## Shares of messages -/

/-- The list of jobs at a moment is made of what was offered until then. -/
theorem offered_of_mem {env : Env Engine ι} {state : State Engine ι}
    (consistent : Consistent env state) {newer older : List Effect}
    (split : state.sys.app.log = newer ++ older) {job : MinerJob}
    (member : job ∈ (publishedBy older).jobs) : job = .idle ∨ Offered job older := by
  refine (EventLoop.mem_publishedBy member).imp_right ?_
  rintro ⟨between, before, published⟩
  have offered : Offered job before := by
    apply EventLoop.reachable_jobsOffered consistent.loop (newer ++ between)
    rw [split, published, List.append_assoc]
  rw [published]
  exact (offered.append [_]).append between

/-- From the message to the share, in every run: each submit line is that of a solution to the
job of a document that was processed before. -/
theorem submitted_shares_solve [DecidableEq ι] (env : Env Engine ι) (state : State Engine ι)
    (reachable : (machine env).Reachable state) (newer older : List Effect) (callId : UInt32)
    (res : MinerResult) (split : state.sys.app.log = newer ++ .submit callId res :: older) :
    ∃ doc param params, .document doc ∈ older ∧ offeredJob doc = some param ∧
      JobMembers param params ∧ Solves env.hashes params res := by
  have sentAs : SentAs (fun older => Proper env.hashes (publishedBy older)) state := by
    apply sentAs_of_run _ (reachable.along fun _ => reachable_queuesProper)
    intro before miner input after found rest consistent queue hasJob proper
    have queued : Proper env.hashes before.mining.published found :=
      proper miner found (queue ▸ .head _)
    have grown := queued.grow fun _ _ => PublishedJobs.getElem?_foldl_apply before.mining.script
    rw [consistent.published, EventLoop.reachable_published consistent.loop] at grown
    exact grown
  obtain ⟨found, same, job, isJob, indexed, genuine⟩ :=
    sentAs.of_line (EventLoop.mem_submitted split)
  have consistent := reachable_consistent reachable
  have logged : state.sys.app.log = (newer ++ [.submit callId res]) ++ older := by
    rw [split, List.append_assoc]
    rfl
  rcases offered_of_mem consistent logged (List.mem_of_getElem? isJob) with rfl | offered
  · exact absurd rfl genuine.hashed.mines
  · obtain ⟨doc, param, params, processed, offers, members, carries⟩ := offered
    rw [← same] at genuine
    exact ⟨doc, param, params, processed, offers, members, solves_genuine carries indexed genuine⟩

/-- The first share solves the sample job. -/
theorem submitted_shares_solve_firstShare :
    ∃ state : State Unit Unit, (machine .sample).Reachable state ∧
      ∃ newer callId res older, state.sys.app.log = newer ++ .submit callId res :: older ∧
        ∃ doc param params, .document doc ∈ older ∧ offeredJob doc = some param ∧
          JobMembers param params ∧ Solves Env.sample.hashes params res := by
  have executed := Machine.execute_reachable
    (State.start_initial (fun _ : Unit => .rxCpuMiner) default) (State.step .sample) firstShare
    (fun state => state.sys.app.log.any EventLoop.Effect.isSubmit = true) (by decide +kernel)
  generalize Machine.execute _ _ _ = state at executed
  obtain ⟨reachable, submits⟩ := executed
  obtain ⟨effect, member, isSubmit⟩ := List.any_eq_true.mp submits
  obtain ⟨newer, older, split⟩ := List.append_of_mem member
  cases effect with
  | submit callId res =>
      exact ⟨state, reachable, newer, callId, res, older, split,
        submitted_shares_solve .sample state reachable newer older callId res split⟩
  | _ => cases isSubmit

end EpicMiner.Process
