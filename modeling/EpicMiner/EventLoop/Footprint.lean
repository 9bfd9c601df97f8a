import EpicMiner.EventLoop.Turns

/-!
Owns what the event loop does to the memory that the miner and dataset threads
read: the scripts of its happenings, one after the other, and no access else.
-/

namespace EpicMiner.EventLoop

open EpicMiner.Library
open EpicMiner.Library.Program
open EpicMiner.Data

variable {Engine : Type}

def Effect.sharedOp : Effect → Option SharedOp
  | .shared op => some op
  | _ => none

/-- The accesses to shared memory, in the order in which they were made. -/
def sharedOps (log : List Effect) : List SharedOp :=
  log.reverse.filterMap Effect.sharedOp

theorem sharedOps_append (newer older : List Effect) :
    sharedOps (newer ++ older) = sharedOps older ++ sharedOps newer := by
  simp [sharedOps]

theorem sharedOps_notes {notes : List Effect} (areNotes : ∀ effect ∈ notes, effect.IsNote) :
    sharedOps notes = [] := by
  refine List.filterMap_eq_nil_iff.mpr fun effect member => ?_
  have isNote := areNotes effect (List.mem_reverse.mp member)
  cases effect <;> first | rfl | exact isNote.elim

/-- From one state to a later one, shared memory went through whole scripts, and
the published jobs followed them. -/
structure Scripted (getEpochNumber : Int32 → Int32) (app next : App) (newer : List Effect)
    (happenings : List Happening) : Prop where
  log : next.log = newer ++ app.log
  ops : sharedOps newer = happenings.flatMap (Happening.script getEpochNumber)
  published : next.executor.published =
    (sharedOps newer).foldl PublishedJobs.apply app.executor.published

namespace Scripted

variable {getEpochNumber : Int32 → Int32} {app before next : App} {earlier later : List Effect}
  {first second : List Happening}

theorem trans (scripted : Scripted getEpochNumber app before earlier first)
    (also : Scripted getEpochNumber before next later second) :
    Scripted getEpochNumber app next (later ++ earlier) (first ++ second) where
  log := by rw [also.log, scripted.log, List.append_assoc]
  ops := by rw [sharedOps_append, scripted.ops, also.ops, List.flatMap_append]
  published := by
    rw [sharedOps_append, List.foldl_append, ← scripted.published, also.published]

theorem silent {newer : List Effect} (log : next.log = newer ++ app.log)
    (ops : sharedOps newer = []) (published : next.executor.published = app.executor.published) :
    Scripted getEpochNumber app next newer [] where
  log := log
  ops := ops
  published := by rw [ops, published, List.foldl_nil]

end Scripted

def footprint (getEpochNumber : Int32 → Int32) : Behaviour Fault (Sys Engine) where
  Change := fun sys next =>
    ∃ newer happenings, Scripted getEpochNumber sys.app next.app newer happenings
  Fault := fun _ _ => True
  refl := fun _ => ⟨[], [], .silent rfl rfl rfl⟩
  trans := fun ⟨_, _, scripted⟩ ⟨_, _, also⟩ => ⟨_, _, scripted.trans also⟩
  fault_trans := fun _ _ => trivial

theorem footprint_handled (config : Config) {app next : App} (handled : Handled config app next) :
    ∃ newer happenings, Scripted config.getEpochNumber app next newer happenings := by
  have noted : ∀ {before : App}, Noted app before →
      ∃ notes, Scripted config.getEpochNumber app before notes [] := by
    intro before noted
    obtain ⟨notes, log, areNotes⟩ := noted.log
    exact ⟨notes, .silent log (sharedOps_notes areNotes) noted.published⟩
  cases handled with
  | noted also =>
      obtain ⟨notes, scripted⟩ := noted also
      exact ⟨notes, [], scripted⟩
  | @rejected before err job also =>
      obtain ⟨notes, scripted⟩ := noted also
      have rejected : Scripted config.getEpochNumber before (before.jobRejected config err job)
          [.logError (poolErrorText config err), .shared .storeNonce] [.rejected] := ⟨rfl, rfl, rfl⟩
      exact ⟨_, _, scripted.trans rejected⟩
  | @accepted before job also =>
      obtain ⟨notes, scripted⟩ := noted also
      have accepted : Scripted config.getEpochNumber before (before.jobAccepted config job)
          [_, _, _, _, _, _, _] [.accepted job] := ⟨rfl, rfl, rfl⟩
      exact ⟨_, _, scripted.trans accepted⟩

theorem footprint_silent (getEpochNumber : Int32 → Int32) {sys next : Sys Engine}
    (newer : List Effect) (log : next.app.log = newer ++ sys.app.log) (ops : sharedOps newer = [])
    (published : next.app.executor.published = sys.app.executor.published) :
    (footprint getEpochNumber).Change sys next :=
  ⟨newer, [], .silent log ops published⟩

theorem footprint_disconnected (getEpochNumber : Int32 → Int32) (app : App) :
    Scripted getEpochNumber app app.disconnected [.shared .publishIdle, .shared .storeNonce]
      [.netOnClose] where
  log := rfl
  ops := rfl
  published := by
    have current : app.executor.published.currentJob.type = app.currentType := rfl
    simp only [sharedOps, Effect.sharedOp, List.reverse_cons, List.reverse_nil, List.nil_append,
      List.cons_append, List.filterMap_cons, List.filterMap_nil, List.foldl_cons, List.foldl_nil,
      PublishedJobs.apply, App.disconnected, current]
    split <;> rfl

theorem footprint_turn (env : Env Engine) : Turn env (footprint env.config.getEpochNumber) where
  fault := fun _ _ => trivial
  admitted := fun _ _ => footprint_silent _ [] rfl rfl rfl
  plumbing := by
    intro sys next app _ _ _
    exact footprint_silent _ [] (by rw [app]; rfl) rfl (by rw [app])
  logError := fun _ _ => footprint_silent _ [_] rfl rfl rfl
  shutdownCalled := fun _ => footprint_silent _ [_] rfl rfl rfl
  uvWrite := fun _ _ _ _ _ => footprint_silent _ [_] rfl rfl rfl
  shutdownStarted := fun _ _ _ => footprint_silent _ [_] rfl rfl rfl
  jobDropped := fun _ _ => ⟨[.shared .storeNonce], [.netOnError], rfl, rfl, rfl⟩
  document := fun sys members _ => Ends.document (fun _ _ => trivial) fun app handled => by
    obtain ⟨newer, happenings, scripted⟩ := footprint_handled env.config handled
    have documented : Scripted env.config.getEpochNumber sys.app
        (sys.app.record (.document (.object members))) [.document (.object members)] [] :=
      .silent rfl rfl rfl
    exact ⟨_, _, documented.trans scripted⟩
  welcomed := fun _ _ _ => footprint_silent _ [] rfl rfl rfl
  loginMade := fun _ _ => footprint_silent _ [_] rfl rfl rfl
  shareMade := fun _ _ _ => footprint_silent _ [_, _] rfl rfl rfl
  dialled := fun _ _ => footprint_silent _ [_] rfl rfl rfl
  shutdownEnded := fun _ _ => footprint_silent _ [] rfl rfl rfl
  socketClosed := by
    intro sys _
    have closed : Scripted env.config.getEpochNumber sys.app.disconnected
        (sys.app.disconnected.record .closed) [.closed] [] := .silent rfl rfl rfl
    exact ⟨_, _, (footprint_disconnected _ sys.app).trans closed⟩

/-- In every run the accesses of the event loop to shared memory are the scripts
of some happenings, and the published jobs are what these accesses make of the
first idle job. -/
theorem sharedOps_eq_scripts (env : Env Engine) (sys : Sys Engine)
    (reachable : (machine env).Reachable sys) :
    ∃ happenings : List Happening,
      sharedOps sys.app.log = happenings.flatMap (Happening.script env.config.getEpochNumber) ∧
        sys.app.executor.published =
          (sharedOps sys.app.log).foldl PublishedJobs.apply .initial := by
  obtain ⟨start, initial, newer, happenings, scripted⟩ := (footprint_turn env).run reachable
  have log : sys.app.log = newer := by rw [scripted.log, initial.logEmpty, List.append_nil]
  refine ⟨happenings, log ▸ scripted.ops, ?_⟩
  rw [log, scripted.published, initial.jobIdle]

end EpicMiner.EventLoop
