import EpicMiner.Data.Json
import Mathlib.Logic.Function.Basic

/-!
Owns the configuration: `parse_config`, which checks a document with two tables,
and the accessors, which check nothing and read through pointers into the
document. After a successful `parse_config` no accessor leaves defined behaviour.
-/

namespace EpicMiner.Config

open EpicMiner.Data

/-! ## Types -/

/-- `rapidjson::Type`. -/
inductive JsonType where
  | nullType
  | falseType
  | trueType
  | objectType
  | arrayType
  | stringType
  | numberType
deriving DecidableEq

/-- `GetType`. -/
def getType : Value → JsonType
  | .null => .nullType
  | .bool false => .falseType
  | .bool true => .trueType
  | .object _ => .objectType
  | .array _ => .arrayType
  | .string _ => .stringType
  | .number _ => .numberType

def checkType (given want : JsonType) : Bool :=
  if want = given then true
  else if want = .nullType then true
  else if want = .trueType ∧ given = .falseType then true
  else if want = .falseType ∧ given = .trueType then true
  else false

/-- `FindMember` on a value that is known to be an object: the first member with the name. -/
def findMember (value : Value) (name : String) : Option Value :=
  match value with
  | .object members => (members.find? fun member => member.1 == ascii name).map Prod.snd
  | _ => none

/-! ## Tables -/

inductive ConfigEnum where
  | aPoolList
  | iNetworkTimeout
  | iNetworkRetry
deriving DecidableEq

def ConfigEnum.index : ConfigEnum → Fin 3
  | .aPoolList => 0
  | .iNetworkTimeout => 1
  | .iNetworkRetry => 2

structure ConfigVal where
  iName : ConfigEnum
  sName : String
  iType : JsonType
  flagConstraints : Nat

def flagNone : Nat := 0

def flagUnsigned : Nat := 1 <<< 0

def flagU16bit : Nat := 1 <<< 1

def checkConstraintUnsigned (val : Value) : Bool :=
  val.isUint

def checkConstraintU16bit : Value → Bool
  | .number (some value) => value ≤ 0xffff
  | _ => false

def oConfigValues : Fin 3 → ConfigVal
  | 0 => ⟨.aPoolList, "pool_list", .arrayType, flagNone⟩
  | 1 => ⟨.iNetworkTimeout, "network_timeout", .numberType, flagUnsigned⟩
  | 2 => ⟨.iNetworkRetry, "network_retry", .numberType, flagUnsigned⟩

/-- `aPoolValues` with `poolValTypes`. -/
def poolValues : List (String × JsonType) :=
  [("pool_address", .stringType), ("wallet_address", .stringType), ("rig_id", .stringType),
    ("pool_password", .stringType), ("use_tls", .trueType), ("tls_fingerprint", .stringType)]

/-! ## State -/

/-- A pointer to a value of a document. Documents are numbered in the order in which they were
parsed. -/
structure JsVal where
  document : Nat
  value : Value

/-- `jsonDoc` with its number, and `configValues`, whose entries are none for `nullptr`. -/
structure JconfPrivate where
  number : Nat
  jsonDoc : Value
  configValues : Fin 3 → Option JsVal

/-- RapidJSON is not part of the repository. `parse` is `Parse` with comments and trailing commas:
the root value, none on a parse error. `keepsDocument` says whether a parse error leaves the
document as it was. -/
structure DocumentParser where
  parse : Bytes → Option Value
  keepsDocument : Bool

/-- A new root replaces the document. -/
def JconfPrivate.replace (root : Value) (d : JconfPrivate) : JconfPrivate :=
  { d with number := d.number + 1, jsonDoc := root }

def JconfPrivate.store (i : Fin 3) (value : Option Value) (d : JconfPrivate) : JconfPrivate :=
  { d with configValues := Function.update d.configValues i (value.map (JsVal.mk d.number)) }

/-! ## Parsing -/

/-- The messages of `parse_config`. -/
inductive ConfigError where
  | cannotRead (filename : String)
  | tooShort (filename : String)
  | parseError
  | rootNotObject
  | notInOrder
  | missingValue (sName : String)
  | unexpectedType (sName : String)
  | notUnsigned (sName : String)
  | notU16bit (sName : String)
  | noPools
  | poolNotObject
  | poolMissingValue (pool : Nat) (name : String)
  | poolUnexpectedType (name : String) (pool : Nat)
deriving DecidableEq

/-- What is printed, less the offset and the reason of a parse error. -/
def ConfigError.text : ConfigError → String
  | cannotRead filename => "Failed to read config file " ++ filename
  | tooShort filename => "Config file " ++ filename ++ " is too short"
  | parseError => "JSON config parse error"
  | rootNotObject => "JSON root is not an object."
  | notInOrder => "Code error. oConfigValues are not in order."
  | missingValue sName => "Invalid config file. Missing value \"" ++ sName ++ "\"."
  | unexpectedType sName => "Invalid config file. Value \"" ++ sName ++ "\" has unexpected type."
  | notUnsigned sName => "Invalid config file. Value \"" ++ sName ++ "\" needs to be unsigned."
  | notU16bit sName => "Invalid config file. Value \"" ++ sName ++ "\" needs to be lower than 65535."
  | noPools => "Invalid config file. pool_list must not be empty."
  | poolNotObject => "Invalid config file. pool_list must contain objects."
  | poolMissingValue pool name =>
      "Invalid config file. Pool " ++ toString pool ++ " does not have the value " ++ name ++ "."
  | poolUnexpectedType name pool =>
      "Invalid config file. Value " ++ name ++ " for pool " ++ toString pool ++
        " has unexpected type."

/-- A file, with no contents if they cannot be read. -/
structure ConfigFile where
  filename : String
  contents : Option Bytes

/-- `find` and `replace` for the byte order mark. -/
def replaceBom : Bytes → Bytes
  | 0xef :: 0xbb :: 0xbf :: rest => 32 :: 32 :: 32 :: rest
  | byte :: rest => byte :: replaceBom rest
  | [] => []

def readFile (file : ConfigFile) : Except ConfigError Bytes :=
  match file.contents with
  | none => .error (.cannotRead file.filename)
  | some contents =>
      -- Inserting an empty file fails, and so does the brace behind it.
      let ret := if contents = [] then ascii "\x7b" else ascii "\x7b" ++ contents ++ ascii "\x7d"
      if ret.length < 8 then .error (.tooShort file.filename) else .ok (replaceBom ret)

/-- The checks of one entry of `configValues`. -/
def checkValue (entry : ConfigVal) : Option Value → Option ConfigError
  | none => some (.missingValue entry.sName)
  | some value =>
      if !checkType (getType value) entry.iType then some (.unexpectedType entry.sName)
      else if entry.flagConstraints &&& flagUnsigned ≠ 0 ∧ !checkConstraintUnsigned value then
        some (.notUnsigned entry.sName)
      else if entry.flagConstraints &&& flagU16bit ≠ 0 ∧ !checkConstraintU16bit value then
        some (.notU16bit entry.sName)
      else none

/-- The first loop of `parse_config`, over the given indices. -/
def checkValues : List (Fin 3) → JconfPrivate → Option ConfigError × JconfPrivate
  | [], d => (none, d)
  | i :: rest, d =>
      if (oConfigValues i).iName.index ≠ i then (some .notInOrder, d)
      else
        let value := findMember d.jsonDoc (oConfigValues i).sName
        let d := d.store i value
        match checkValue (oConfigValues i) value with
        | some error => (some error, d)
        | none => checkValues rest d

/-- The inner loop, over the members that a pool must have. -/
def checkPoolValues (pool : Nat) (oThdConf : Value) :
    List (String × JsonType) → Option ConfigError
  | [] => none
  | (name, type) :: rest =>
      match findMember oThdConf name with
      | none => some (.poolMissingValue pool name)
      | some v =>
          if !checkType (getType v) type then some (.poolUnexpectedType name pool)
          else checkPoolValues pool oThdConf rest

/-- The loop over the pools, from the pool `i` on. -/
def checkPools : Nat → List Value → Option ConfigError
  | _, [] => none
  | i, oThdConf :: rest =>
      if !oThdConf.isObject then some .poolNotObject
      else
        match checkPoolValues i oThdConf poolValues with
        | some error => some error
        | none => checkPools (i + 1) rest

/-- The items of a value that is known to be an array. -/
def items : Option JsVal → List Value
  | some ⟨_, .array items⟩ => items
  | _ => []

/-- `parse_config` behind the parser. -/
def checkDocument (d : JconfPrivate) : Option ConfigError × JconfPrivate :=
  if !d.jsonDoc.isObject then (some .rootNotObject, d)
  else
    match checkValues [0, 1, 2] d with
    | (some error, d) => (some error, d)
    | (none, d) =>
        let pools := items (d.configValues ConfigEnum.aPoolList.index)
        if pools.length = 0 then (some .noPools, d) else (checkPools 0 pools, d)

/-- `jconf::parse_config`, which returns true if it has no error. -/
def parseConfig (parser : DocumentParser) (file : ConfigFile) (d : JconfPrivate) :
    Option ConfigError × JconfPrivate :=
  match readFile file with
  | .error error => (some error, d)
  | .ok text =>
      match parser.parse text with
      | none => (some .parseError, if parser.keepsDocument then d else d.replace .null)
      | some root => checkDocument (d.replace root)

/-! ## Accessors -/

/-- Where an accessor leaves defined behaviour. -/
inductive AccessFault where
  | nullPointer
  /-- The value belonged to a document that was replaced. -/
  | danglingPointer
  /-- A RapidJSON accessor applied to a value of another type. -/
  | typeError
  /-- `assert(n < get_pool_count())`. -/
  | assertion
  | outOfRange
deriving DecidableEq

/-- What a pointer in `configValues` points to. -/
def deref (d : JconfPrivate) (name : ConfigEnum) : Except AccessFault Value :=
  match d.configValues name.index with
  | none => .error .nullPointer
  | some ⟨document, value⟩ =>
      if document = d.number then .ok value else .error .danglingPointer

/-- `GetUint`. -/
def getUint : Value → Except AccessFault UInt32
  | .number (some value) => .ok value
  | _ => .error .typeError

/-- `GetString`. -/
def getString : Value → Except AccessFault Bytes
  | .string text => .ok (cString text)
  | _ => .error .typeError

/-- `GetBool`. -/
def getBool : Value → Except AccessFault Bool
  | .bool value => .ok value
  | _ => .error .typeError

/-- `GetObjectMember`, none for `nullptr`. -/
def getObjectMember (obj : Value) (key : String) : Except AccessFault (Option Value) :=
  match obj with
  | .object _ => .ok (findMember obj key)
  | _ => .error .typeError

def pointee : Option Value → Except AccessFault Value
  | none => .error .nullPointer
  | some value => .ok value

def getNetworkTimeout (d : JconfPrivate) : Except AccessFault UInt32 := do
  getUint (← deref d .iNetworkTimeout)

def getNetworkRetry (d : JconfPrivate) : Except AccessFault UInt32 := do
  getUint (← deref d .iNetworkRetry)

def getPoolCount (d : JconfPrivate) : Except AccessFault Nat := do
  match ← deref d .aPoolList with
  | .array items => return items.length
  | _ => return 0

/-- `pool_cfg`. -/
structure PoolCfg where
  sPoolAddr : Bytes
  sWalletAddr : Bytes
  sRigId : Bytes
  sPasswd : Bytes
  tls : Bool
  tlsFingerprint : Bytes

/-- `get_pool_config` on the pool it has found. -/
def readPool (oPoolConf : Value) : Except AccessFault PoolCfg := do
  let jaddr ← getObjectMember oPoolConf "pool_address"
  let jlogin ← getObjectMember oPoolConf "wallet_address"
  let jrigid ← getObjectMember oPoolConf "rig_id"
  let jpasswd ← getObjectMember oPoolConf "pool_password"
  let jtls ← getObjectMember oPoolConf "use_tls"
  let jtlsfp ← getObjectMember oPoolConf "tls_fingerprint"
  return {
    sPoolAddr := ← getString (← pointee jaddr)
    sWalletAddr := ← getString (← pointee jlogin)
    sRigId := ← getString (← pointee jrigid)
    sPasswd := ← getString (← pointee jpasswd)
    tls := ← getBool (← pointee jtls)
    tlsFingerprint := ← getString (← pointee jtlsfp) }

def getPoolConfig (d : JconfPrivate) (n : Nat) : Except AccessFault PoolCfg := do
  if !decide (n < (← getPoolCount d)) then throw .assertion
  match ← deref d .aPoolList with
  | .array items =>
      match items[n]? with
      | some oPoolConf => readPool oPoolConf
      | none => throw .outOfRange
  | _ => throw .typeError

/-! ## Valid documents -/

/-- A pool as the accessors read it. -/
def ValidPool (pool : Value) : Prop :=
  pool.isObject = true ∧ ∀ entry ∈ poolValues, ∃ value,
    findMember pool entry.1 = some value ∧ checkType (getType value) entry.2 = true

/-- A configuration as the accessors read it, with any other members, in any order. -/
structure ValidDocument (root : Value) : Prop where
  isObject : root.isObject = true
  poolList : ∃ pools, findMember root "pool_list" = some (.array pools) ∧ pools ≠ [] ∧
    ∀ pool ∈ pools, ValidPool pool
  timeout : ∃ value, findMember root "network_timeout" = some (.number (some value))
  retry : ∃ value, findMember root "network_retry" = some (.number (some value))

theorem checkPoolValues_eq_none_iff (pool : Nat) (oThdConf : Value)
    (entries : List (String × JsonType)) :
    checkPoolValues pool oThdConf entries = none ↔ ∀ entry ∈ entries, ∃ value,
      findMember oThdConf entry.1 = some value ∧ checkType (getType value) entry.2 = true := by
  induction entries with
  | nil => simp [checkPoolValues]
  | cons entry entries inductionHypothesis =>
      obtain ⟨name, type⟩ := entry
      rw [List.forall_mem_cons, checkPoolValues]
      cases found : findMember oThdConf name with
      | none => simp
      | some value =>
          by_cases typed : checkType (getType value) type = true
          · simp [typed, inductionHypothesis]
          · simp [typed]

theorem checkPools_eq_none_iff (i : Nat) (pools : List Value) :
    checkPools i pools = none ↔ ∀ pool ∈ pools, ValidPool pool := by
  induction pools generalizing i with
  | nil => simp [checkPools]
  | cons pool pools inductionHypothesis =>
      rw [List.forall_mem_cons, checkPools, ValidPool, ← checkPoolValues_eq_none_iff i]
      by_cases isObject : pool.isObject = true
      · cases checked : checkPoolValues i pool poolValues with
        | none => simp [isObject, inductionHypothesis]
        | some error => simp [isObject]
      · simp [isObject]

theorem checkValue_poolList_iff (value : Option Value) :
    checkValue (oConfigValues ConfigEnum.aPoolList.index) value = none ↔
      ∃ pools, value = some (.array pools) := by
  cases value with
  | none => simp [checkValue]
  | some value =>
      cases value with
      | bool value => cases value <;> simp [checkValue, oConfigValues, ConfigEnum.index, getType, checkType]
      | _ => simp [checkValue, oConfigValues, ConfigEnum.index, getType, checkType, flagNone]

/-- The two numbers pass if they are unsigned. -/
theorem checkValue_number_iff {entry : ConfigVal} (isNumber : entry.iType = .numberType)
    (flags : entry.flagConstraints = flagUnsigned) (value : Option Value) :
    checkValue entry value = none ↔ ∃ number, value = some (.number (some number)) := by
  cases value with
  | none => simp [checkValue]
  | some value =>
      cases value with
      | bool value => cases value <;> simp [checkValue, isNumber, getType, checkType]
      | number value =>
          cases value <;> simp [checkValue, isNumber, flags, getType, checkType, flagUnsigned,
            flagU16bit, checkConstraintUnsigned, Value.isUint]
      | _ => simp [checkValue, isNumber, getType, checkType]

/-- The entries of the table are in the order of the enumeration. -/
theorem oConfigValues_inOrder (i : Fin 3) : (oConfigValues i).iName.index = i := by
  revert i
  decide

/-! ## The loop over the values -/

/-- The value that the table names in a document. -/
def found (root : Value) (i : Fin 3) : Option Value :=
  findMember root (oConfigValues i).sName

/-- What the loop over some values leaves: it stores values of the document only, and all of
these if it succeeds. -/
structure Checked (d : JconfPrivate) (places : List (Fin 3))
    (checked : Option ConfigError × JconfPrivate) : Prop where
  passes : checked.1 = none ↔
    ∀ i ∈ places, checkValue (oConfigValues i) (found d.jsonDoc i) = none
  number : checked.2.number = d.number
  jsonDoc : checked.2.jsonDoc = d.jsonDoc
  stored : ∀ i, checked.2.configValues i = d.configValues i ∨
    checked.2.configValues i = (found d.jsonDoc i).map (JsVal.mk d.number)
  complete : checked.1 = none → ∀ i ∈ places,
    checked.2.configValues i = (found d.jsonDoc i).map (JsVal.mk d.number)

theorem checkValues_cons (place : Fin 3) (places : List (Fin 3)) (d : JconfPrivate) :
    checkValues (place :: places) d =
      match checkValue (oConfigValues place) (found d.jsonDoc place) with
      | some error => (some error, d.store place (found d.jsonDoc place))
      | none => checkValues places (d.store place (found d.jsonDoc place)) := by
  rw [checkValues, if_neg (not_not_intro (oConfigValues_inOrder place))]
  rfl

theorem checkValues_checked (places : List (Fin 3)) (d : JconfPrivate) :
    Checked d places (checkValues places d) := by
  induction places generalizing d with
  | nil => exact ⟨by simp [checkValues], rfl, rfl, fun _ => .inl rfl, by simp⟩
  | cons place places inductionHypothesis =>
      have here : (d.store place (found d.jsonDoc place)).configValues place =
          (found d.jsonDoc place).map (JsVal.mk d.number) := Function.update_self ..
      have others : ∀ i, (d.store place (found d.jsonDoc place)).configValues i = d.configValues i ∨
          (d.store place (found d.jsonDoc place)).configValues i =
            (found d.jsonDoc i).map (JsVal.mk d.number) := by
        intro i
        by_cases same : i = place
        · subst same
          exact .inr here
        · exact .inl (Function.update_of_ne same ..)
      rw [checkValues_cons]
      cases check : checkValue (oConfigValues place) (found d.jsonDoc place) with
      | some error => exact ⟨by simp [check], rfl, rfl, others, fun none => by cases none⟩
      | none =>
          have behind := inductionHypothesis (d.store place (found d.jsonDoc place))
          refine ⟨?_, behind.number, behind.jsonDoc, fun i => ?_, fun none i member => ?_⟩
          · rw [List.forall_mem_cons]
            exact behind.passes.trans (and_iff_right check).symm
          · rcases behind.stored i with same | now
            · exact same ▸ others i
            · exact .inr now
          · rcases List.mem_cons.mp member with rfl | member
            · rcases behind.stored i with same | now
              · exact same.trans here
              · exact now
            · exact behind.complete none i member

/-! ## The accessors -/

theorem bind_eq_ok {ε α β : Type} (x : Except ε α) (f : α → Except ε β) (b : β) :
    x >>= f = .ok b ↔ ∃ a, x = .ok a ∧ f a = .ok b := by
  cases x with
  | error fault => simp [bind, Except.bind]
  | ok a => simp [bind, Except.bind]

theorem checkType_string_iff (value : Value) :
    checkType (getType value) .stringType = true ↔ ∃ text, value = .string text := by
  cases value with
  | bool value => cases value <;> simp [getType, checkType]
  | _ => simp [getType, checkType]

theorem checkType_true_iff (value : Value) :
    checkType (getType value) .trueType = true ↔ ∃ flag, value = .bool flag := by
  cases value with
  | bool value => cases value <;> simp [getType, checkType]
  | _ => simp [getType, checkType]

theorem pointee_eq_ok (pointer : Option Value) (value : Value) :
    pointee pointer = .ok value ↔ pointer = some value := by
  cases pointer <;> simp [pointee]

theorem string_of_getString {value : Value} {text : Bytes} (read : getString value = .ok text) :
    ∃ text, value = .string text := by
  cases value with
  | string text => exact ⟨text, rfl⟩
  | _ => cases read

theorem bool_of_getBool {value : Value} {flag : Bool} (read : getBool value = .ok flag) :
    ∃ flag, value = .bool flag := by
  cases value with
  | bool flag => exact ⟨flag, rfl⟩
  | _ => cases read

theorem uint_of_getUint {value : Value} {number : UInt32} (read : getUint value = .ok number) :
    ∃ number, value = .number (some number) := by
  cases value with
  | number uint =>
      cases uint with
      | some number => exact ⟨number, rfl⟩
      | none => cases read
  | _ => cases read

/-- A pool that passes the checks can be read, and no other. -/
theorem readPool_ok_iff (pool : Value) : (∃ cfg, readPool pool = .ok cfg) ↔ ValidPool pool := by
  cases pool with
  | object members =>
      simp only [ValidPool, poolValues, List.forall_mem_cons, checkType_string_iff,
        checkType_true_iff]
      constructor
      · rintro ⟨cfg, read⟩
        simp only [readPool, getObjectMember, bind_eq_ok, Except.ok.injEq, exists_eq_left',
          pointee_eq_ok] at read
        obtain ⟨addr, isAddr, _, addrText, login, isLogin, _, loginText, rig, isRig, _, rigText,
          passwd, isPasswd, _, passwdText, tls, isTls, _, tlsFlag, print, isPrint, _, printText,
          -⟩ := read
        exact ⟨rfl, ⟨addr, isAddr, string_of_getString addrText⟩,
          ⟨login, isLogin, string_of_getString loginText⟩,
          ⟨rig, isRig, string_of_getString rigText⟩,
          ⟨passwd, isPasswd, string_of_getString passwdText⟩,
          ⟨tls, isTls, bool_of_getBool tlsFlag⟩,
          ⟨print, isPrint, string_of_getString printText⟩, by simp⟩
      · rintro ⟨-, ⟨_, addr, ⟨_, rfl⟩⟩, ⟨_, login, ⟨_, rfl⟩⟩, ⟨_, rig, ⟨_, rfl⟩⟩, ⟨_, passwd, ⟨_, rfl⟩⟩,
          ⟨_, tls, ⟨_, rfl⟩⟩, ⟨_, fingerprint, ⟨_, rfl⟩⟩, -⟩
        simp only [readPool, getObjectMember, addr, login, rig, passwd, tls, fingerprint]
        exact ⟨_, rfl⟩
  | _ => simp [readPool, getObjectMember, ValidPool, Value.isObject, bind, Except.bind]

/-- The accessors stay within defined behaviour, and there is a pool. -/
structure Accessible (d : JconfPrivate) : Prop where
  poolList : ∃ pools, deref d .aPoolList = .ok (.array pools) ∧ pools ≠ []
  timeout : ∃ value, getNetworkTimeout d = .ok value
  retry : ∃ value, getNetworkRetry d = .ok value
  count : ∃ count, getPoolCount d = .ok count ∧ 0 < count
  config : ∀ count, getPoolCount d = .ok count → ∀ n < count, ∃ cfg, getPoolConfig d n = .ok cfg

/-- The values that a document must have, read through pointers into it. -/
structure PointsInto (d : JconfPrivate) (root : Value) : Prop where
  pools : d.configValues ConfigEnum.aPoolList.index =
    (findMember root "pool_list").map (JsVal.mk d.number)
  timeout : d.configValues ConfigEnum.iNetworkTimeout.index =
    (findMember root "network_timeout").map (JsVal.mk d.number)
  retry : d.configValues ConfigEnum.iNetworkRetry.index =
    (findMember root "network_retry").map (JsVal.mk d.number)

theorem deref_of_map {d : JconfPrivate} {name : ConfigEnum} {member : Option Value}
    (points : d.configValues name.index = member.map (JsVal.mk d.number)) :
    deref d name = pointee member := by
  rw [deref, points]
  cases member with
  | none => rfl
  | some value => exact if_pos rfl

/-- The accessors of the two numbers are this one, for their entry. -/
theorem getUint_deref_iff {d : JconfPrivate} {name : ConfigEnum} {member : Option Value}
    (points : deref d name = pointee member) :
    (∃ number, (deref d name >>= getUint) = .ok number) ↔
      ∃ number, member = some (.number (some number)) := by
  rw [points]
  constructor
  · rintro ⟨number, read⟩
    obtain ⟨value, isMember, read⟩ := (bind_eq_ok _ _ _).mp read
    obtain ⟨number, rfl⟩ := uint_of_getUint read
    exact ⟨number, (pointee_eq_ok _ _).mp isMember⟩
  · rintro ⟨number, rfl⟩
    exact ⟨number, rfl⟩

theorem getPoolCount_of_array {d : JconfPrivate} {pools : List Value}
    (points : deref d .aPoolList = .ok (.array pools)) : getPoolCount d = .ok pools.length := by
  rw [getPoolCount, points]
  rfl

theorem getPoolConfig_of_array {d : JconfPrivate} {pools : List Value}
    (points : deref d .aPoolList = .ok (.array pools)) {n : Nat} {pool : Value}
    (isPool : pools[n]? = some pool) : getPoolConfig d n = readPool pool := by
  obtain ⟨bound, rfl⟩ := List.getElem?_eq_some_iff.mp isPool
  rw [getPoolConfig, getPoolCount_of_array points, points]
  simp [bind, Except.bind, bound]

/-- With pointers into the document, the accessors are safe exactly if it is valid. -/
theorem accessible_iff {d : JconfPrivate} {root : Value} (isObject : root.isObject = true)
    (points : PointsInto d root) : Accessible d ↔ ValidDocument root := by
  have pools := deref_of_map points.pools
  have timeout := getUint_deref_iff (deref_of_map points.timeout)
  have retry := getUint_deref_iff (deref_of_map points.retry)
  constructor
  · intro accessible
    obtain ⟨items, isArray, nonempty⟩ := accessible.poolList
    refine ⟨isObject, ⟨items, ?_, nonempty, fun pool member => ?_⟩,
      timeout.mp accessible.timeout, retry.mp accessible.retry⟩
    · rw [pools, pointee_eq_ok] at isArray
      exact isArray
    · obtain ⟨n, bound, rfl⟩ := List.mem_iff_getElem.mp member
      obtain ⟨cfg, read⟩ := accessible.config _ (getPoolCount_of_array isArray) n bound
      rw [getPoolConfig_of_array isArray (List.getElem?_eq_getElem bound)] at read
      exact (readPool_ok_iff _).mp ⟨cfg, read⟩
  · intro valid
    obtain ⟨items, isArray, nonempty, validPools⟩ := valid.poolList
    rw [isArray] at pools
    have counted := getPoolCount_of_array pools
    refine ⟨⟨items, pools, nonempty⟩, timeout.mpr valid.timeout, retry.mpr valid.retry,
      ⟨items.length, counted, List.length_pos_iff.mpr nonempty⟩, fun count isCount n bound => ?_⟩
    obtain rfl := Except.ok.inj (counted.symm.trans isCount)
    rw [getPoolConfig_of_array pools (List.getElem?_eq_getElem bound)]
    exact (readPool_ok_iff _).mpr (validPools _ (List.getElem_mem bound))

/-! ## A successful parse -/

/-- The checks behind the parser succeed exactly on valid documents, and then the pointers lead
into the document. -/
structure DocumentChecked (d : JconfPrivate) (checked : Option ConfigError × JconfPrivate) :
    Prop where
  passes : checked.1 = none ↔ ValidDocument d.jsonDoc
  number : checked.2.number = d.number
  stored : ∀ i, checked.2.configValues i = d.configValues i ∨
    checked.2.configValues i = (found d.jsonDoc i).map (JsVal.mk d.number)
  points : checked.1 = none → PointsInto checked.2 d.jsonDoc

/-- The three values pass if they have the types that the accessors need. -/
theorem values_pass_iff (root : Value) :
    (∀ i ∈ ([0, 1, 2] : List (Fin 3)), checkValue (oConfigValues i) (found root i) = none) ↔
      (∃ pools, findMember root "pool_list" = some (.array pools)) ∧
        (∃ value, findMember root "network_timeout" = some (.number (some value))) ∧
        ∃ value, findMember root "network_retry" = some (.number (some value)) := by
  simp only [List.forall_mem_cons, List.not_mem_nil, false_imp_iff, implies_true, and_true]
  exact and_congr (checkValue_poolList_iff _)
    (and_congr (checkValue_number_iff rfl rfl _) (checkValue_number_iff rfl rfl _))

theorem checkDocument_checked (d : JconfPrivate) : DocumentChecked d (checkDocument d) := by
  rw [checkDocument]
  by_cases isObject : d.jsonDoc.isObject = true
  · rw [if_neg (by simp [isObject])]
    have checked := checkValues_checked [0, 1, 2] d
    have passes := checked.passes
    rw [values_pass_iff] at passes
    cases result : checkValues [0, 1, 2] d with
    | mk error d' =>
        rw [result] at checked passes
        cases error with
        | some error =>
            refine ⟨iff_of_false (by simp) fun valid => ?_, checked.number, checked.stored, by simp⟩
            obtain ⟨pools, isArray, -⟩ := valid.poolList
            have none := passes.mpr ⟨⟨pools, isArray⟩, valid.timeout, valid.retry⟩
            cases none
        | none =>
            obtain ⟨⟨pools, isArray⟩, timeout, retry⟩ := passes.mp rfl
            have complete := checked.complete rfl
            have points : PointsInto d' d.jsonDoc := by
              have number : d'.number = d.number := checked.number
              refine ⟨?_, ?_, ?_⟩
              · exact number ▸ complete 0 (by decide)
              · exact number ▸ complete 1 (by decide)
              · exact number ▸ complete 2 (by decide)
            have listed : items (d'.configValues ConfigEnum.aPoolList.index) = pools := by
              rw [points.pools, isArray]
              rfl
            dsimp only
            rw [listed]
            by_cases empty : pools.length = 0
            · rw [if_pos empty]
              refine ⟨iff_of_false (by simp) fun valid => ?_, checked.number, checked.stored, by simp⟩
              obtain ⟨pools', isArray', nonempty, -⟩ := valid.poolList
              rw [isArray] at isArray'
              cases isArray'
              exact nonempty (List.length_eq_zero_iff.mp empty)
            · rw [if_neg empty]
              refine ⟨?_, checked.number, checked.stored, fun _ => points⟩
              rw [checkPools_eq_none_iff]
              constructor
              · exact fun all => ⟨isObject, ⟨pools, isArray, mt List.length_eq_zero_iff.mpr empty, all⟩,
                  timeout, retry⟩
              · intro valid
                obtain ⟨pools', isArray', -, all⟩ := valid.poolList
                rw [isArray] at isArray'
                cases isArray'
                exact all
  · rw [if_pos (by simp [isObject])]
    exact ⟨iff_of_false (by simp) fun valid => isObject valid.isObject, rfl, fun _ => .inl rfl,
      by simp⟩

/-- A successful call leaves pointers into a valid document. -/
theorem valid_of_success {parser : DocumentParser} {file : ConfigFile} {d d' : JconfPrivate}
    (succeeded : parseConfig parser file d = (none, d')) :
    ∃ root, ValidDocument root ∧ PointsInto d' root := by
  rw [parseConfig] at succeeded
  cases read : readFile file with
  | error error => simp [read] at succeeded
  | ok text =>
      cases parsed : parser.parse text with
      | none => simp [read, parsed] at succeeded
      | some root =>
          simp only [read, parsed] at succeeded
          have checked := checkDocument_checked (d.replace root)
          rw [succeeded] at checked
          exact ⟨root, checked.passes.mp rfl, checked.points rfl⟩

/-- For every document: after a successful `parse_config` the accessors are safe. -/
theorem parseConfig_accessible (parser : DocumentParser) (file : ConfigFile) (d d' : JconfPrivate)
    (succeeded : parseConfig parser file d = (none, d')) : Accessible d' := by
  obtain ⟨root, valid, points⟩ := valid_of_success succeeded
  exact (accessible_iff valid.isObject points).mpr valid

/-! ## A sample configuration -/

/-- A parser that reads the given texts as the given values. -/
def DocumentParser.ofTexts (known : List (Bytes × Value)) : DocumentParser where
  parse := fun text => (known.find? fun entry => entry.1 == text).map Prod.snd
  keepsDocument := true

/-- The contents of a file, less the braces around them. -/
def sampleText : Bytes :=
  [ascii "\"network_retry\":10,", ascii "\"network_timeout\":20,", ascii "\"pool_list\":[\x7b",
    ascii "\"pool_address\":\"a:1\",", ascii "\"wallet_address\":\"w\",", ascii "\"rig_id\":\"\",",
    ascii "\"pool_password\":\"x\",", ascii "\"use_tls\":false,", ascii "\"tls_fingerprint\":",
    ascii "\"\"\x7d]"].flatten

def sampleRoot : Value :=
  .object
    [(ascii "network_retry", .number (some 10)), (ascii "network_timeout", .number (some 20)),
      (ascii "pool_list", .array [.object
        [(ascii "pool_address", .string (ascii "a:1")), (ascii "wallet_address", .string (ascii "w")),
          (ascii "rig_id", .string []), (ascii "pool_password", .string (ascii "x")),
          (ascii "use_tls", .bool false), (ascii "tls_fingerprint", .string [])]])]

def sampleFile : ConfigFile :=
  ⟨"config.txt", some sampleText⟩

def sampleParser : DocumentParser :=
  .ofTexts [(ascii "\x7b" ++ sampleText ++ ascii "\x7d", sampleRoot)]

def emptyConfig : JconfPrivate :=
  ⟨0, .null, fun _ => none⟩

/-- The result of a call is its error and what it leaves. -/
theorem eq_of_error {result : Option ConfigError × JconfPrivate} {error : Option ConfigError}
    (isError : result.1 = error) : result = (error, result.2) := by
  rw [← isError]

theorem parseConfig_accessible_sample :
    Accessible (parseConfig sampleParser sampleFile emptyConfig).2 :=
  parseConfig_accessible sampleParser sampleFile emptyConfig _ (eq_of_error (by decide +kernel))

end EpicMiner.Config
