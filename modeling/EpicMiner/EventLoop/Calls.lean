import EpicMiner.Data.Job

/-!
Owns the call map of `pool.hpp`: eight slots that match replies to the calls
they answer. `registerCall_cases` and `findCall_cases` say all that the two
operations can do; later proofs use these and never unfold the searches.
-/

namespace EpicMiner.EventLoop

open EpicMiner.Data

inductive CallTypes where
  | invalid
  | login
  | result
  | keepalive
deriving DecidableEq, Repr

structure CallMapping where
  callId : UInt32
  type : CallTypes
  timeMade : Int
  minerId : UInt32
deriving DecidableEq, Repr

def CallMapping.Live (mapping : CallMapping) : Prop :=
  mapping.type ≠ .invalid

instance (mapping : CallMapping) : Decidable mapping.Live := by
  unfold CallMapping.Live
  infer_instance

/-- `call_map[8]` with `g_call_id`. -/
structure CallMap where
  entries : List CallMapping
  sized : entries.length = 8
  gCallId : UInt32
deriving DecidableEq

namespace CallMap

/-- The search of `register_call`: the first free slot takes the new call. -/
def registerIn (call : CallMapping) : List CallMapping → Option (List CallMapping)
  | [] => none
  | mapping :: rest =>
      if mapping.type = .invalid then some (call :: rest)
      else (registerIn call rest).map (mapping :: ·)

/-- The search of `find_call`: the first live slot with the id is freed. -/
def findIn (callId : UInt32) : List CallMapping → Option (CallMapping × List CallMapping)
  | [] => none
  | mapping :: rest =>
      if mapping.type ≠ .invalid ∧ mapping.callId = callId then
        some (mapping, { mapping with type := .invalid, minerId := invalidMinerId } :: rest)
      else (findIn callId rest).map fun found => (found.1, mapping :: found.2)

theorem registerIn_cases (call : CallMapping) (entries : List CallMapping) :
    (registerIn call entries = none ∧ ∀ mapping ∈ entries, mapping.Live) ∨
      ∃ before free after, entries = before ++ free :: after ∧
        (∀ mapping ∈ before, mapping.Live) ∧ ¬ free.Live ∧
        registerIn call entries = some (before ++ call :: after) := by
  induction entries with
  | nil => exact .inl ⟨rfl, by simp⟩
  | cons mapping rest inductionHypothesis =>
      by_cases isFree : mapping.type = .invalid
      · refine .inr ⟨[], mapping, rest, rfl, by simp, ?_, ?_⟩
        · simp [CallMapping.Live, isFree]
        · simp [registerIn, isFree]
      · rcases inductionHypothesis with
          ⟨none, live⟩ | ⟨before, free, after, split, live, free', some⟩
        · left
          refine ⟨by simp [registerIn, isFree, none], ?_⟩
          intro other member
          rcases List.mem_cons.mp member with rfl | member
          · exact isFree
          · exact live other member
        · right
          refine ⟨mapping :: before, free, after, by simp [split], ?_, free', ?_⟩
          · intro other member
            rcases List.mem_cons.mp member with rfl | member
            · exact isFree
            · exact live other member
          · simp [registerIn, isFree, some]

theorem findIn_cases (callId : UInt32) (entries : List CallMapping) :
    (findIn callId entries = none ∧
        ∀ mapping ∈ entries, ¬ (mapping.Live ∧ mapping.callId = callId)) ∨
      ∃ before found after, entries = before ++ found :: after ∧
        (∀ mapping ∈ before, ¬ (mapping.Live ∧ mapping.callId = callId)) ∧
        found.Live ∧ found.callId = callId ∧
        findIn callId entries = some (found,
          before ++ { found with type := .invalid, minerId := invalidMinerId } :: after) := by
  induction entries with
  | nil => exact .inl ⟨rfl, by simp⟩
  | cons mapping rest inductionHypothesis =>
      by_cases isFound : mapping.type ≠ .invalid ∧ mapping.callId = callId
      · exact .inr ⟨[], mapping, rest, rfl, by simp, isFound.1, isFound.2,
          by simp [findIn, isFound]⟩
      · have head : ∀ other ∈ [mapping], ¬ (other.Live ∧ other.callId = callId) := by
          simpa [CallMapping.Live] using isFound
        rcases inductionHypothesis with ⟨none, absent⟩ |
          ⟨before, found, after, split, absent, live, matches_, some⟩
        · left
          refine ⟨by simp only [findIn, if_neg isFound, none, Option.map_none], ?_⟩
          intro other member
          rcases List.mem_cons.mp member with rfl | member
          · exact head other (by simp)
          · exact absent other member
        · right
          refine ⟨mapping :: before, found, after, by simp [split], ?_, live, matches_, ?_⟩
          · intro other member
            rcases List.mem_cons.mp member with rfl | member
            · exact head other (by simp)
            · exact absent other member
          · simp only [findIn, if_neg isFound, some, Option.map_some, List.cons_append]

def zero : CallMap where
  entries := List.replicate 8 ⟨0, .invalid, 0, 0⟩
  sized := rfl
  gCallId := 0

/-! ## Operations -/

def flushCallMap (map : CallMap) : CallMap where
  entries := map.entries.map fun mapping => { mapping with type := .invalid }
  sized := by rw [List.length_map, map.sized]
  gCallId := 0

/-- `register_call`: whether a slot was free, the out parameter `call_id`, and
the map after it. The out parameter keeps its old value when no slot is free. -/
def registerCall (map : CallMap) (type : CallTypes) (callId : UInt32) (now : Int)
    (minerId : UInt32) : Bool × UInt32 × CallMap :=
  match found : registerIn ⟨map.gCallId, type, now, minerId⟩ map.entries with
  | none => (false, callId, map)
  | some entries =>
      (true, map.gCallId,
        { entries := entries
          sized := by
            rcases registerIn_cases ⟨map.gCallId, type, now, minerId⟩ map.entries with
              ⟨none, -⟩ | ⟨before, free, after, split, -, -, some⟩
            · rw [none] at found
              cases found
            · rw [some] at found
              cases found
              have sized := map.sized
              rw [split] at sized
              simpa using sized
          gCallId := map.gCallId + 1 })

/-- `find_call`: the type and miner of the matched call, and the map after it. -/
def findCall (map : CallMap) (callId : UInt32) : CallTypes × UInt32 × CallMap :=
  match found : findIn callId map.entries with
  | none => (.invalid, invalidMinerId, map)
  | some (mapping, entries) =>
      (mapping.type, mapping.minerId,
        { map with
          entries := entries
          sized := by
            rcases findIn_cases callId map.entries with
              ⟨none, -⟩ | ⟨before, found', after, split, -, -, -, some⟩
            · rw [none] at found
              cases found
            · rw [some] at found
              cases found
              have sized := map.sized
              rw [split] at sized
              simpa using sized })

/-- What `register_call` can do: fail on eight live slots and change nothing, or
put the call with the next id into the first free slot. -/
theorem registerCall_cases (map : CallMap) (type : CallTypes) (callId : UInt32) (now : Int)
    (minerId : UInt32) :
    ((∀ mapping ∈ map.entries, mapping.Live) ∧
        map.registerCall type callId now minerId = (false, callId, map)) ∨
      ∃ before free after map', map.entries = before ++ free :: after ∧
        (∀ mapping ∈ before, mapping.Live) ∧ ¬ free.Live ∧
        map'.entries = before ++ ⟨map.gCallId, type, now, minerId⟩ :: after ∧
        map'.gCallId = map.gCallId + 1 ∧
        map.registerCall type callId now minerId = (true, map.gCallId, map') := by
  rcases registerIn_cases ⟨map.gCallId, type, now, minerId⟩ map.entries with
    ⟨none, live⟩ | ⟨before, free, after, split, live, isFree, some⟩
  · left
    refine ⟨live, ?_⟩
    unfold registerCall
    split
    · rfl
    · rename_i entries found
      rw [none] at found
      cases found
  · right
    unfold registerCall
    split
    · rename_i found
      rw [some] at found
      cases found
    · rename_i entries found
      refine ⟨before, free, after, _, split, live, isFree, ?_, rfl, rfl⟩
      rw [some] at found
      cases found
      rfl

def liveWith (map : CallMap) (callId : UInt32) : List CallMapping :=
  map.entries.filter fun mapping => mapping.type != .invalid && mapping.callId == callId

/-- The map holds exactly one live call with the id, and it is of this type and
for this miner. -/
def Awaits (map : CallMap) (callId : UInt32) (type : CallTypes) (minerId : UInt32) : Prop :=
  ∃ mapping, map.liveWith callId = [mapping] ∧ mapping.type = type ∧ mapping.minerId = minerId

def HasFree (map : CallMap) : Prop :=
  ∃ mapping ∈ map.entries, ¬ mapping.Live

instance (map : CallMap) : Decidable map.HasFree := by
  unfold HasFree
  infer_instance

end CallMap

end EpicMiner.EventLoop
