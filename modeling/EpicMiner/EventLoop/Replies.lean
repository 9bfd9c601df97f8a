import EpicMiner.Library.Desk
import EpicMiner.Library.Machine
import EpicMiner.EventLoop.Calls

/-!
Owns the matching of replies to calls. The call map is a desk whose tickets are
the call ids; `flush_call_map`, `register_call` and `find_call` are its three
operations, so the history of a desk says which calls the map holds.
-/

namespace EpicMiner.EventLoop

open EpicMiner.Library
open EpicMiner.Data

/-! ## The call map as a desk -/

/-- What a call is registered for: its type and its miner. -/
abbrev CallPayload := CallTypes × UInt32

/-- The slot of a desk that an entry of the call map is; its time is left out. -/
def CallMapping.slot (mapping : CallMapping) : Option (UInt32 × CallPayload) :=
  if mapping.type = .invalid then none
  else some (mapping.callId, mapping.type, mapping.minerId)

theorem CallMapping.slot_free {mapping : CallMapping} (free : mapping.type = .invalid) :
    mapping.slot = none :=
  if_pos free

theorem CallMapping.slot_live {mapping : CallMapping} (live : mapping.type ≠ .invalid) :
    mapping.slot = some (mapping.callId, mapping.type, mapping.minerId) :=
  if_neg live

namespace CallMap

def slots (map : CallMap) : List (Option (UInt32 × CallPayload)) :=
  map.entries.map CallMapping.slot

theorem place_slots (call : CallMapping) (live : call.type ≠ .invalid)
    (entries : List CallMapping) :
    Desk.place call.callId (call.type, call.minerId) (entries.map CallMapping.slot) =
      (registerIn call entries).map (List.map CallMapping.slot) := by
  induction entries with
  | nil => rfl
  | cons mapping rest inductionHypothesis =>
      by_cases free : mapping.type = .invalid
      · simp [registerIn, free, CallMapping.slot_free free, CallMapping.slot_live live, Desk.place]
      · simp only [List.map_cons, CallMapping.slot_live free, registerIn, if_neg free, Desk.place,
          inductionHypothesis, Option.map_map]
        congr 1
        funext entries
        simp [CallMapping.slot_live free]

theorem take_slots (callId : UInt32) (entries : List CallMapping) :
    Desk.take callId (entries.map CallMapping.slot) =
      match findIn callId entries with
      | none => (none, entries.map CallMapping.slot)
      | some (mapping, rest) => (some (mapping.type, mapping.minerId), rest.map CallMapping.slot) := by
  induction entries with
  | nil => rfl
  | cons mapping rest inductionHypothesis =>
      by_cases free : mapping.type = .invalid
      · simp only [List.map_cons, CallMapping.slot_free free, Desk.take, inductionHypothesis,
          findIn, free, ne_eq, not_true_eq_false, false_and, if_false]
        cases findIn callId rest <;> simp [CallMapping.slot_free free]
      · by_cases same : mapping.callId = callId
        · simp [Desk.take, findIn, free, same, CallMapping.slot]
        · simp only [List.map_cons, CallMapping.slot_live free, Desk.take, inductionHypothesis,
            findIn, free, same, ne_eq, and_false, if_false]
          cases findIn callId rest <;> simp [CallMapping.slot_live free]

/-- `register_call` issues the next id to the desk, if a slot is free. -/
theorem registerCall_place {type : CallTypes} (valid : type ≠ .invalid) (map : CallMap)
    (callId : UInt32) (now : Int) (minerId : UInt32) :
    (Desk.place map.gCallId (type, minerId) map.slots = none ∧
        map.registerCall type callId now minerId = (false, callId, map)) ∨
      ∃ registered, Desk.place map.gCallId (type, minerId) map.slots = some registered.slots ∧
        registered.gCallId = map.gCallId + 1 ∧
        map.registerCall type callId now minerId = (true, map.gCallId, registered) := by
  have placed := place_slots ⟨map.gCallId, type, now, minerId⟩ valid map.entries
  unfold slots
  rw [placed]
  unfold registerCall
  split
  · rename_i fails
    exact .inl ⟨congrArg (Option.map _) fails, rfl⟩
  · rename_i entries found
    exact .inr ⟨_, congrArg (Option.map _) found, rfl, rfl⟩

theorem findCall_of_none {map : CallMap} {callId : UInt32}
    (fails : findIn callId map.entries = none) :
    map.findCall callId = (.invalid, invalidMinerId, map) := by
  unfold findCall
  split
  · rfl
  · rename_i found
    rw [fails] at found
    cases found

theorem findCall_of_some {map : CallMap} {callId : UInt32} {mapping : CallMapping}
    {entries : List CallMapping} (found : findIn callId map.entries = some (mapping, entries)) :
    ∃ freed, freed.entries = entries ∧ freed.gCallId = map.gCallId ∧
      map.findCall callId = (mapping.type, mapping.minerId, freed) := by
  unfold findCall
  split
  · rename_i fails
    rw [found] at fails
    cases fails
  · rename_i same
    rw [found] at same
    cases same
    exact ⟨⟨_, _, map.gCallId⟩, rfl, rfl, rfl⟩

/-- `find_call` calls an id back, and answers what the desk answers. -/
theorem findCall_take (map : CallMap) (callId : UInt32) :
    (map.findCall callId).2.2.slots = (Desk.take callId map.slots).2 ∧
      (map.findCall callId).2.2.gCallId = map.gCallId ∧
      ((Desk.take callId map.slots).1 = none ∧ (map.findCall callId).1 = .invalid ∨
        (Desk.take callId map.slots).1 =
            some ((map.findCall callId).1, (map.findCall callId).2.1) ∧
          (map.findCall callId).1 ≠ .invalid) := by
  have taken := take_slots callId map.entries
  rcases findIn_cases callId map.entries with
    ⟨fails, -⟩ | ⟨before, mapping, after, -, -, live, -, found⟩
  · rw [fails] at taken
    rw [findCall_of_none fails, slots, taken]
    exact ⟨rfl, rfl, .inl ⟨rfl, rfl⟩⟩
  · obtain ⟨freed, entries, counter, answer⟩ := findCall_of_some found
    rw [found, ← entries] at taken
    rw [answer, slots, slots, taken]
    exact ⟨rfl, counter, .inr ⟨rfl, live⟩⟩

@[simp] theorem slots_flushCallMap (map : CallMap) :
    map.flushCallMap.slots = map.slots.map fun _ => none := by
  simp [slots, flushCallMap, CallMapping.slot, List.map_map, Function.comp_def]

def liveIds (map : CallMap) : List UInt32 :=
  (map.entries.filter fun mapping => mapping.type != .invalid).map CallMapping.callId

theorem tickets_slots (map : CallMap) : Desk.tickets map.slots = map.liveIds := by
  unfold slots liveIds
  induction map.entries with
  | nil => rfl
  | cons mapping rest inductionHypothesis =>
      by_cases free : mapping.type = .invalid
      · simp [CallMapping.slot_free free, free, inductionHypothesis]
      · simp [CallMapping.slot_live free, free, inductionHypothesis]

/-- An entry that `find_call` changes is a live one with the id. -/
theorem findCall_others (map : CallMap) (callId : UInt32) (idx : Nat) :
    (map.findCall callId).2.2.entries[idx]? = map.entries[idx]? ∨
      ∃ mapping, map.entries[idx]? = some mapping ∧ mapping.Live ∧ mapping.callId = callId := by
  rcases findIn_cases callId map.entries with
    ⟨fails, -⟩ | ⟨before, mapping, after, split, -, live, same, found⟩
  · rw [findCall_of_none fails]
    exact .inl rfl
  · obtain ⟨freed, entries, -, answer⟩ := findCall_of_some found
    rw [answer]
    change freed.entries[idx]? = _ ∨ _
    rw [entries, split]
    by_cases here : idx = before.length
    · subst here
      exact .inr ⟨mapping, by simp, live, same⟩
    · left
      rw [List.getElem?_append, List.getElem?_append]
      split
      · rfl
      · obtain ⟨gap, later⟩ : ∃ gap, idx - before.length = gap + 1 :=
          ⟨idx - before.length - 1, by omega⟩
        simp [later]

end CallMap

/-! ## Runs of the call map -/

/-- A call map with its history. -/
structure CallRun where
  map : CallMap
  history : List (DeskEvent UInt32 CallPayload)

inductive CallOp where
  | flush
  | register (type : CallTypes) (callId : UInt32) (now : Int) (minerId : UInt32)
  | find (callId : UInt32)

namespace CallRun

def desk (run : CallRun) : Desk UInt32 CallPayload :=
  ⟨run.map.slots, run.history⟩

/-- An operation on the map, noted in the history. A call is never registered with
the type that stands for a free entry. -/
def step (run : CallRun) : CallOp → Option CallRun
  | .flush => some ⟨run.map.flushCallMap, .cleared :: run.history⟩
  | .register type callId now minerId =>
      if type = .invalid then none
      else
        match run.map.registerCall type callId now minerId with
        | (false, _, map) => some ⟨map, run.history⟩
        | (true, callId, map) => some ⟨map, .issued callId (type, minerId) :: run.history⟩
  | .find callId => some ⟨(run.map.findCall callId).2.2, .called callId :: run.history⟩

end CallRun

/-- Runs start with a flush. -/
def callMachine : Machine CallRun CallOp :=
  .ofPartial (fun run => ∃ map : CallMap, run = ⟨map.flushCallMap, [.cleared]⟩) CallRun.step

/-- At most 2^32 calls were registered since the last flush. -/
def CallRun.Limited (run : CallRun) : Prop :=
  Desk.issuedSince run.history ≤ 4294967296

instance (run : CallRun) : Decidable run.Limited := by
  unfold CallRun.Limited
  infer_instance

/-- Runs that register at most 2^32 calls between two flushes. -/
abbrev LimitedRun (run : CallRun) : Prop :=
  callMachine.ReachableWhen (fun _ _ next => next.Limited) run

theorem LimitedRun.operate {run next : CallRun} (reachable : LimitedRun run) (op : CallOp)
    (stepped : run.step op = some next) (limited : next.Limited) : LimitedRun next :=
  reachable.step stepped limited

/-- The entries of the map are those of its history, and the next id is the number
of calls registered so far. -/
structure CallRun.Tracked (run : CallRun) : Prop where
  tracks : Desk.Tracks UInt32.ofNat run.desk
  counter : run.map.gCallId = UInt32.ofNat (Desk.issuedSince run.history)

theorem ofNat_injOn : Set.InjOn UInt32.ofNat (Set.Iio 4294967296) := by
  intro left below right below' same
  have values := congrArg UInt32.toNat same
  simp only [UInt32.toNat_ofNat', Nat.reducePow] at values
  rwa [Nat.mod_eq_of_lt below, Nat.mod_eq_of_lt below'] at values

namespace CallRun.Tracked

theorem flush (run : CallRun) (history : List (DeskEvent UInt32 CallPayload)) :
    Tracked ⟨run.map.flushCallMap, .cleared :: history⟩ where
  tracks := by
    have cleared := Desk.Tracks.clear UInt32.ofNat (⟨run.map.slots, history⟩ : Desk _ CallPayload)
    unfold desk
    rw [CallMap.slots_flushCallMap]
    exact cleared
  counter := rfl

theorem step {run next : CallRun} {op : CallOp} (tracked : run.Tracked)
    (stepped : run.step op = some next) (limited : next.Limited) : next.Tracked := by
  cases op with
  | flush =>
      cases stepped
      exact .flush run run.history
  | find callId =>
      cases stepped
      obtain ⟨slots, counter, -⟩ := run.map.findCall_take callId
      have called := tracked.tracks.call callId
      refine ⟨?_, counter.trans tracked.counter⟩
      unfold desk
      rw [slots]
      exact called
  | register type callId now minerId =>
      by_cases invalid : type = .invalid
      · rw [CallRun.step, if_pos invalid] at stepped
        cases stepped
      rw [CallRun.step, if_neg invalid] at stepped
      rcases run.map.registerCall_place invalid callId now minerId with
        ⟨-, made⟩ | ⟨registered, placed, counter, made⟩
      · rw [made] at stepped
        cases stepped
        exact tracked
      · rw [made] at stepped
        cases stepped
        have issued : run.desk.issue run.map.gCallId (type, minerId) =
            ⟨registered.slots, .issued run.map.gCallId (type, minerId) :: run.history⟩ := by
          unfold Desk.issue
          rw [show run.desk.slots = run.map.slots from rfl, placed]
          rfl
        have tracks := tracked.tracks.issue ofNat_injOn (type, minerId)
        rw [show run.desk.history = run.history from rfl, ← tracked.counter, issued] at tracks
        refine ⟨tracks limited, ?_⟩
        rw [counter, tracked.counter]
        exact (UInt32.ofNat_add _ 1).symm

end CallRun.Tracked

theorem LimitedRun.tracked {run : CallRun} (reachable : LimitedRun run) : run.Tracked := by
  apply reachable.invariant
  · rintro _ ⟨map, rfl⟩
    exact .flush ⟨map, []⟩ []
  · intro before op next _ tracked stepped limited
    exact tracked.step stepped limited

/-- What `find_call` does with an id is decided by the history. -/
structure CallRun.Matches (run : CallRun) (callId : UInt32) : Prop where
  found : (run.map.findCall callId).1 ≠ .invalid ↔
    ∃ payload, Desk.Outstanding run.history callId payload
  answer : ∀ type minerId, Desk.Outstanding run.history callId (type, minerId) →
    (run.map.findCall callId).1 = type ∧ (run.map.findCall callId).2.1 = minerId
  others : ∀ idx : Nat, (run.map.findCall callId).2.2.entries[idx]? = run.map.entries[idx]? ∨
    ∃ mapping : CallMapping, run.map.entries[idx]? = some mapping ∧ mapping.Live ∧ mapping.callId = callId

theorem CallRun.Tracked.matches {run : CallRun} (tracked : run.Tracked) (callId : UInt32) :
    run.Matches callId := by
  have answers : ∀ payload, (Desk.take callId run.map.slots).1 = some payload ↔
      Desk.Outstanding run.history callId payload :=
    tracked.tracks.answer_eq_some_iff callId
  obtain ⟨-, -, outcome⟩ := run.map.findCall_take callId
  refine ⟨?_, ?_, run.map.findCall_others callId⟩
  · rcases outcome with ⟨none, invalid⟩ | ⟨taken, valid⟩
    · apply iff_of_false (not_not.mpr invalid)
      rintro ⟨payload, outstanding⟩
      rw [← answers, none] at outstanding
      cases outstanding
    · exact iff_of_true valid ⟨_, (answers _).mp taken⟩
  · intro type minerId outstanding
    rw [← answers] at outstanding
    rcases outcome with ⟨none, -⟩ | ⟨taken, -⟩
    · rw [none] at outstanding
      cases outstanding
    · rw [taken] at outstanding
      cases outstanding
      exact ⟨rfl, rfl⟩

end EpicMiner.EventLoop
