import EpicMiner.Mining.Loop
import Mathlib.Data.List.Induction
import Mathlib.Logic.Function.Basic

/-!
Owns how the miners that share the counter of one job scan its nonces. The test
for the end of a chunk looks at the nonce, which is a multiple of the chunk size
at the start of the chunk as well, so every iteration claims a chunk of its own.
-/

namespace EpicMiner.Mining

open EpicMiner.Library
open EpicMiner.Data

variable {ι : Type} [DecidableEq ι]

/-! ## The scan of one job -/

inductive ScanEvent (ι : Type) where
  | claim (miner : ι) (chunk : UInt32)
  | hash (miner : ι) (nonce : UInt32)
deriving DecidableEq

/-- The counter of a job, the miners in its loop, and what they did, latest event
first. -/
structure Scan (ι : Type) where
  counter : UInt32
  threads : ι → Thread
  trace : List (ScanEvent ι)

namespace Scan

/-- All miners enter the loop of their class for `job`; the counter is a number
of whole chunks, as it always is. -/
def start (miner : CpuMiner) (job : MinerJob) (chunks : UInt32) : Scan ι where
  counter := chunks * nonceChunk
  threads := fun _ =>
    (({ Thread.start miner with currentJob := job } : Thread).withNonce 0).goto .nextNonce
  trace := []

/-- One step of a miner: the choice of its next nonce, with the claim in it, or
its hash. -/
def step (scan : Scan ι) (miner : ι) : Scan ι :=
  let thread := scan.threads miner
  if thread.phase = .hash then
    { scan with
      threads := Function.update scan.threads miner (thread.goto .nextNonce)
      trace := .hash miner thread.nonce :: scan.trace }
  else if thread.Claims then
    { counter := scan.counter + nonceChunk
      threads := Function.update scan.threads miner (thread.claim scan.counter)
      trace := .claim miner scan.counter :: scan.trace }
  else
    { scan with threads := Function.update scan.threads miner thread.increment }

def run (scan : Scan ι) (schedule : List ι) : Scan ι :=
  schedule.foldl step scan

end Scan

/-! ## Complete scans -/

def lastClaim (miner : ι) : List (ScanEvent ι) → Option UInt32
  | [] => none
  | .claim other chunk :: older => if other = miner then some chunk else lastClaim miner older
  | .hash _ _ :: older => lastClaim miner older

/-- Whenever a miner claimed a chunk, it had hashed every nonce of the chunk it
claimed before. -/
def ScansComplete : List (ScanEvent ι) → Prop
  | [] => True
  | .claim miner _ :: older =>
      (∀ chunk, lastClaim miner older = some chunk →
        ∀ offset, offset < nonceChunk → .hash miner (chunk + offset) ∈ older) ∧ ScansComplete older
  | .hash _ _ :: older => ScansComplete older

/-! ## What the steps make -/

/-- A thread that has made `steps` steps in the loop of a job. -/
structure Iterating (steps : Nat) (thread : Thread) : Prop where
  inBounds : thread.miner = .rxCpuMiner → thread.currentJob.noncePos.toNat + 4 ≤ 512
  aligned : Aligned thread.nonce
  phase : thread.phase = .hash ↔ steps % 2 = 1

theorem Iterating.hash {steps : Nat} {thread : Thread} (iterating : Iterating steps thread)
    (hashing : thread.phase = .hash) : Iterating (steps + 1) (thread.goto .nextNonce) where
  inBounds := iterating.inBounds
  aligned := by simpa using iterating.aligned
  phase := by
    have odd := iterating.phase.mp hashing
    simp only [Thread.goto_phase, reduceCtorEq, false_iff]
    omega

theorem Iterating.claim {steps : Nat} {thread : Thread} (iterating : Iterating steps thread)
    (choosing : thread.phase ≠ .hash) {counter : UInt32} (aligned : Aligned counter) :
    Iterating (steps + 1) (thread.claim counter) where
  inBounds := by
    unfold Thread.claim
    rw [Thread.goto_currentJob, Thread.withNonce_currentJob, Thread.goto_miner,
      Thread.withNonce_miner]
    exact iterating.inBounds
  aligned := by
    unfold Thread.claim
    rw [Thread.goto_nonce, Thread.nonce_withNonce iterating.inBounds]
    exact aligned
  phase := by
    have even := mt iterating.phase.mpr choosing
    simp only [Thread.claim, Thread.goto_phase, true_iff]
    omega

/-- What the miners have done after the given steps. -/
structure Scanned (schedule : List ι) (scan : Scan ι) : Prop where
  threads : ∀ miner, Iterating (schedule.count miner) (scan.threads miner)
  counter : Aligned scan.counter
  claims : ∀ miner chunk, lastClaim miner scan.trace = some chunk → Aligned chunk
  hashes : ∀ miner nonce, .hash miner nonce ∈ scan.trace → Aligned nonce
  claimed : ∀ miner, lastClaim miner scan.trace = none ↔ schedule.count miner = 0
  complete : ScansComplete scan.trace ↔ ∀ miner, schedule.count miner ≤ 2

section Count

variable (schedule : List ι) (miner : ι)

theorem count_self : (schedule ++ [miner]).count miner = schedule.count miner + 1 := by simp

theorem count_other {other : ι} (differs : other ≠ miner) :
    (schedule ++ [miner]).count other = schedule.count other := by
  simp [List.count_eq_zero, differs]

theorem forall_count_iff (Property : ι → Nat → Prop) :
    (∀ other, Property other ((schedule ++ [miner]).count other)) ↔
      Property miner (schedule.count miner + 1) ∧
        ∀ other, other ≠ miner → Property other (schedule.count other) := by
  constructor
  · intro all
    refine ⟨count_self schedule miner ▸ all miner, fun other differs => ?_⟩
    exact count_other schedule miner differs ▸ all other
  · rintro ⟨self, others⟩ other
    by_cases same : other = miner
    · subst same
      rw [count_self]
      exact self
    · rw [count_other _ _ same]
      exact others other same

end Count

namespace Scanned

variable {schedule : List ι} {scan : Scan ι} {miner : ι}

theorem threads_update (scanned : Scanned schedule scan) {thread : Thread}
    (next : Iterating (schedule.count miner + 1) thread) (other : ι) :
    Iterating ((schedule ++ [miner]).count other)
      (Function.update scan.threads miner thread other) := by
  by_cases same : other = miner
  · subst same
    rwa [count_self, Function.update_self]
  · rw [count_other _ _ same, Function.update_of_ne same]
    exact scanned.threads other

theorem hash (scanned : Scanned schedule scan) (hashing : (scan.threads miner).phase = .hash) :
    Scanned (schedule ++ [miner]) (scan.step miner) := by
  have odd := (scanned.threads miner).phase.mp hashing
  rw [Scan.step, if_pos hashing]
  constructor
  case threads => exact scanned.threads_update ((scanned.threads miner).hash hashing)
  case counter => exact scanned.counter
  case claims => exact scanned.claims
  case hashes =>
    intro other nonce member
    rcases List.mem_cons.mp member with now | earlier
    · cases now
      exact (scanned.threads miner).aligned
    · exact scanned.hashes other nonce earlier
  case claimed =>
    refine (forall_count_iff schedule miner
      fun other count => lastClaim other scan.trace = none ↔ count = 0).mpr ⟨?_, ?_⟩
    · rw [scanned.claimed]
      omega
    · exact fun other _ => scanned.claimed other
  case complete =>
    apply scanned.complete.trans
    rw [forall_count_iff schedule miner fun _ count => count ≤ 2]
    constructor
    · intro all
      have few := all miner
      exact ⟨by omega, fun other _ => all other⟩
    · rintro ⟨few, others⟩ other
      by_cases same : other = miner
      · subst same
        omega
      · exact others other same

/-- Every iteration begins with a claim, and a second one leaves nonces of the
first chunk behind. -/
theorem claim (scanned : Scanned schedule scan) (choosing : (scan.threads miner).phase ≠ .hash) :
    Scanned (schedule ++ [miner]) (scan.step miner) := by
  have even := mt (scanned.threads miner).phase.mpr choosing
  have claims : (scan.threads miner).Claims := (scanned.threads miner).aligned
  rw [Scan.step, if_neg choosing, if_pos claims]
  constructor
  case threads =>
    exact scanned.threads_update ((scanned.threads miner).claim choosing scanned.counter)
  case counter => exact scanned.counter.next
  case claims =>
    intro other chunk last
    change (if miner = other then some scan.counter else lastClaim other scan.trace) = some chunk
      at last
    split at last
    · cases last
      exact scanned.counter
    · exact scanned.claims other chunk last
  case hashes =>
    intro other nonce member
    rcases List.mem_cons.mp member with now | earlier
    · cases now
    · exact scanned.hashes other nonce earlier
  case claimed =>
    refine (forall_count_iff schedule miner fun other count =>
      (if miner = other then some scan.counter else lastClaim other scan.trace) = none ↔
        count = 0).mpr ⟨by simp, fun other differs => ?_⟩
    rw [if_neg (Ne.symm differs)]
    exact scanned.claimed other
  case complete =>
    rw [forall_count_iff schedule miner fun _ count => count ≤ 2]
    constructor
    · rintro ⟨hashed, complete⟩
      have all := scanned.complete.mp complete
      refine ⟨?_, fun other _ => all other⟩
      by_contra second
      have claimedBefore : lastClaim miner scan.trace ≠ none := by
        rw [Ne, scanned.claimed]
        omega
      obtain ⟨chunk, last⟩ := Option.ne_none_iff_exists'.mp claimedBefore
      have successor := scanned.hashes miner _ (hashed chunk last 1 (by decide))
      exact (scanned.claims miner chunk last).not_succ successor
    · rintro ⟨few, others⟩
      have first : schedule.count miner = 0 := by omega
      refine ⟨fun chunk last => ?_, scanned.complete.mpr fun other => ?_⟩
      · rw [(scanned.claimed miner).mpr first] at last
        cases last
      · by_cases same : other = miner
        · subst same
          omega
        · exact others other same

theorem step (scanned : Scanned schedule scan) (miner : ι) :
    Scanned (schedule ++ [miner]) (scan.step miner) := by
  by_cases hashing : (scan.threads miner).phase = .hash
  · exact scanned.hash hashing
  · exact scanned.claim hashing

end Scanned

/-! ## Runs -/

theorem scanned_start (miner : CpuMiner) (job : MinerJob) (chunks : UInt32)
    (inBounds : job.noncePos.toNat + 4 ≤ 512) :
    Scanned ([] : List ι) (Scan.start miner job chunks) where
  threads := fun _ =>
    { inBounds := by
        unfold Scan.start
        rw [Thread.goto_currentJob, Thread.withNonce_currentJob]
        exact fun _ => inBounds
      aligned := by
        unfold Scan.start
        rw [Thread.goto_nonce, Thread.nonce_withNonce fun _ => inBounds]
        exact aligned_zero
      phase := by simp [Scan.start] }
  counter := aligned_mul_nonceChunk chunks
  claims := fun _ _ last => nomatch last
  hashes := fun _ _ member => nomatch member
  claimed := fun _ => by simp [Scan.start, lastClaim]
  complete := by simp [Scan.start, ScansComplete]

/-- After any steps, every claimed chunk is scanned completely before its miner
claims another one exactly if no miner has begun a second iteration. -/
theorem scans_complete_iff (miner : CpuMiner) (job : MinerJob) (chunks : UInt32)
    (inBounds : job.noncePos.toNat + 4 ≤ 512) (schedule : List ι) :
    ScansComplete ((Scan.start miner job chunks).run schedule).trace ↔
      ∀ other, schedule.count other ≤ 2 := by
  have scanned : Scanned schedule ((Scan.start miner job chunks).run schedule) := by
    induction schedule using List.reverseRecOn with
    | nil => exact scanned_start miner job chunks inBounds
    | append_singleton schedule last inductionHypothesis =>
        have next := inductionHypothesis.step last
        simpa [Scan.run, List.foldl_append] using next
  exact scanned.complete

def eightByteJob (type : PowType) : MinerJob :=
  { MinerJob.idle with blobLen := 8, noncePos := 4, sharesNonce := true, type := type }

theorem scans_complete_iff_pair :
    ScansComplete ((Scan.start .rxCpuMiner (eightByteJob .randomx) 0).run
        [true, false, true, false]).trace ↔
      ∀ other, [true, false, true, false].count other ≤ 2 :=
  scans_complete_iff .rxCpuMiner (eightByteJob .randomx) 0 (by decide) _

/-- A lone miner claims its second chunk after one hash of the first. -/
theorem second_iteration_skips_nonces :
    ¬ ScansComplete ((Scan.start .rxCpuMiner (eightByteJob .randomx) 0).run
        [(), (), ()]).trace ∧
      ¬ ScansComplete ((Scan.start .ppCpuMiner (eightByteJob .progpow) 0).run
        [(), (), ()]).trace := by
  have traces : ∀ miner ∈ [(CpuMiner.rxCpuMiner, PowType.randomx), (.ppCpuMiner, .progpow)],
      ((Scan.start miner.1 (eightByteJob miner.2) 0).run [(), (), ()]).trace =
        [.claim () 16384, .hash () 0, .claim () 0] := by decide +kernel
  have skipped : ¬ ScansComplete [.claim () 16384, .hash () 0, .claim () 0] := by
    intro complete
    have hashed := complete.1 0 rfl 1 (by decide)
    exact absurd hashed (by decide)
  constructor
  · rw [traces (_, _) (.head _)]
    exact skipped
  · rw [traces (_, _) (.tail _ (.head _))]
    exact skipped

end EpicMiner.Mining
