import EpicMiner.Config.Parsing
import Mathlib.Data.List.Forall2

/-!
Owns what a configuration file says: the settings that a document describes, whatever else is
in it and in whatever order. `parse_config` succeeds exactly on such documents, whatever was
parsed before, and then the accessors give exactly the settings.
-/

namespace EpicMiner.Config

open EpicMiner.Data

/-! ## Settings -/

structure Settings where
  timeout : UInt32
  retry : UInt32
  pools : List PoolCfg
  nonempty : pools ≠ []

/-- The member is a string, which counts up to its first NUL. -/
def Says (value : Value) (name : String) (text : Bytes) : Prop :=
  ∃ whole, findMember value name = some (.string whole) ∧ cString whole = text

structure DescribesPool (value : Value) (pool : PoolCfg) : Prop where
  address : Says value "pool_address" pool.sPoolAddr
  wallet : Says value "wallet_address" pool.sWalletAddr
  rig : Says value "rig_id" pool.sRigId
  password : Says value "pool_password" pool.sPasswd
  tls : findMember value "use_tls" = some (.bool pool.tls)
  fingerprint : Says value "tls_fingerprint" pool.tlsFingerprint

structure Describes (root : Value) (settings : Settings) : Prop where
  timeout : findMember root "network_timeout" = some (.number (some settings.timeout))
  retry : findMember root "network_retry" = some (.number (some settings.retry))
  pools : ∃ values, findMember root "pool_list" = some (.array values) ∧
    List.Forall₂ DescribesPool values settings.pools

/-- What the accessors give. -/
structure Gives (d : JconfPrivate) (settings : Settings) : Prop where
  timeout : getNetworkTimeout d = .ok settings.timeout
  retry : getNetworkRetry d = .ok settings.retry
  count : getPoolCount d = .ok settings.pools.length
  pool : ∀ n pool, settings.pools[n]? = some pool → getPoolConfig d n = .ok pool

/-! ## Pools -/

theorem getString_eq_ok (value : Value) (text : Bytes) :
    getString value = .ok text ↔ ∃ whole, value = .string whole ∧ cString whole = text := by
  cases value <;> simp [getString]

theorem getBool_eq_ok (value : Value) (flag : Bool) :
    getBool value = .ok flag ↔ value = .bool flag := by
  cases value <;> simp [getBool]

theorem getUint_eq_ok (value : Value) (number : UInt32) :
    getUint value = .ok number ↔ value = .number (some number) := by
  cases value with
  | number uint => cases uint <;> simp [getUint]
  | _ => simp [getUint]

theorem readPool_eq_ok (value : Value) (pool : PoolCfg) :
    readPool value = .ok pool ↔ DescribesPool value pool := by
  cases value with
  | object members =>
      constructor
      · intro read
        simp only [readPool, getObjectMember, bind_eq_ok, Except.ok.injEq, exists_eq_left',
          pointee_eq_ok, getString_eq_ok, getBool_eq_ok] at read
        obtain ⟨_, address, _, ⟨_, rfl, rfl⟩, _, wallet, _, ⟨_, rfl, rfl⟩, _, rig, _, ⟨_, rfl, rfl⟩,
          _, password, _, ⟨_, rfl, rfl⟩, _, tls, _, rfl, _, fingerprint, _, ⟨_, rfl, rfl⟩,
          made⟩ := read
        cases made
        exact
          { address := ⟨_, address, rfl⟩
            wallet := ⟨_, wallet, rfl⟩
            rig := ⟨_, rig, rfl⟩
            password := ⟨_, password, rfl⟩
            tls := tls
            fingerprint := ⟨_, fingerprint, rfl⟩ }
      · rintro ⟨⟨_, address, isAddress⟩, ⟨_, wallet, isWallet⟩, ⟨_, rig, isRig⟩,
          ⟨_, password, isPassword⟩, tls, ⟨_, fingerprint, isFingerprint⟩⟩
        simp only [readPool, getObjectMember, address, wallet, rig, password, tls, fingerprint]
        cases pool
        cases isAddress
        cases isWallet
        cases isRig
        cases isPassword
        cases isFingerprint
        rfl
  | _ =>
      constructor
      · intro read
        cases read
      · intro describes
        cases describes.tls

/-! ## Accessors -/

theorem number_iff {d : JconfPrivate} {name : ConfigEnum} {member : Option Value}
    (points : deref d name = pointee member) (number : UInt32) :
    (deref d name >>= getUint) = .ok number ↔ member = some (.number (some number)) := by
  rw [points]
  simp only [bind_eq_ok, pointee_eq_ok, getUint_eq_ok, exists_eq_right]

/-- With pointers into the document, the accessors give what it describes. -/
theorem gives_iff {d : JconfPrivate} {root : Value} (points : PointsInto d root)
    (settings : Settings) : Gives d settings ↔ Describes root settings := by
  have timeout := number_iff (deref_of_map points.timeout) settings.timeout
  have retry := number_iff (deref_of_map points.retry) settings.retry
  have pools := deref_of_map points.pools
  constructor
  · intro gives
    refine ⟨timeout.mp gives.timeout, retry.mp gives.retry, ?_⟩
    have counted := gives.count
    have positive : 0 < settings.pools.length := List.length_pos_iff.mpr settings.nonempty
    rw [getPoolCount, bind_eq_ok] at counted
    obtain ⟨value, isValue, counts⟩ := counted
    cases value with
    | array values =>
        have count : values.length = settings.pools.length := Except.ok.inj counts
        refine ⟨values, (pointee_eq_ok _ _).mp (pools.symm.trans isValue), ?_⟩
        rw [List.forall₂_iff_get]
        refine ⟨count, fun n bound bound' => ?_⟩
        have read := gives.pool n _ (List.getElem?_eq_getElem bound')
        rw [getPoolConfig_of_array isValue (List.getElem?_eq_getElem bound)] at read
        exact (readPool_eq_ok _ _).mp read
    | _ =>
        have none : 0 = settings.pools.length := Except.ok.inj counts
        omega
  · intro describes
    obtain ⟨values, isArray, described⟩ := describes.pools
    rw [isArray] at pools
    have isValue : deref d .aPoolList = .ok (.array values) := pools
    refine ⟨timeout.mpr describes.timeout, retry.mpr describes.retry, ?_, fun n pool isPool => ?_⟩
    · rw [getPoolCount_of_array isValue, described.length_eq]
    · obtain ⟨bound, rfl⟩ := List.getElem?_eq_some_iff.mp isPool
      obtain ⟨count, each⟩ := List.forall₂_iff_get.mp described
      have inside : n < values.length := count ▸ bound
      rw [getPoolConfig_of_array isValue (List.getElem?_eq_getElem inside), readPool_eq_ok]
      exact each n inside bound

/-! ## Parsing -/

theorem DescribesPool.valid {value : Value} {pool : PoolCfg} (describes : DescribesPool value pool) :
    ValidPool value :=
  (readPool_ok_iff value).mp ⟨pool, (readPool_eq_ok value pool).mpr describes⟩

theorem Describes.valid {root : Value} {settings : Settings} (describes : Describes root settings) :
    ValidDocument root := by
  obtain ⟨values, isArray, described⟩ := describes.pools
  refine ⟨?_, ⟨values, isArray, ?_, fun value member => ?_⟩, ⟨_, describes.timeout⟩,
    ⟨_, describes.retry⟩⟩
  · cases root with
    | object members => rfl
    | _ => cases isArray
  · rintro rfl
    exact settings.nonempty (List.forall₂_nil_left_iff.mp described)
  · obtain ⟨n, bound, rfl⟩ := List.mem_iff_getElem.mp member
    obtain ⟨count, each⟩ := List.forall₂_iff_get.mp described
    exact (each n bound (count ▸ bound)).valid

/-- Valid documents are those that describe some settings. -/
theorem ValidDocument.describes {root : Value} (valid : ValidDocument root) :
    ∃ settings, Describes root settings := by
  obtain ⟨values, isArray, nonempty, each⟩ := valid.poolList
  obtain ⟨timeout, isTimeout⟩ := valid.timeout
  obtain ⟨retry, isRetry⟩ := valid.retry
  have described : ∃ pools, List.Forall₂ DescribesPool values pools := by
    clear isArray nonempty
    induction values with
    | nil => exact ⟨[], .nil⟩
    | cons value values inductionHypothesis =>
        obtain ⟨first, rest⟩ := List.forall_mem_cons.mp each
        obtain ⟨pool, read⟩ := (readPool_ok_iff value).mpr first
        obtain ⟨pools, others⟩ := inductionHypothesis rest
        exact ⟨pool :: pools, .cons ((readPool_eq_ok value pool).mp read) others⟩
  obtain ⟨pools, described⟩ := described
  refine ⟨⟨timeout, retry, pools, ?_⟩, isTimeout, isRetry, values, isArray, described⟩
  rintro rfl
  exact nonempty (List.forall₂_nil_right_iff.mp described)

/-- A call succeeds exactly if the file can be read, the parser finds a document in it, and the
checks behind it pass. -/
theorem parseConfig_succeeds_iff (parser : DocumentParser) (file : ConfigFile)
    (d : JconfPrivate) :
    (parseConfig parser file d).1 = none ↔
      ∃ text root, readFile file = .ok text ∧ parser.parse text = some root ∧
        ValidDocument root := by
  rw [parseConfig]
  cases read : readFile file with
  | error error => simp
  | ok text =>
      cases parsed : parser.parse text with
      | none => simp [parsed]
      | some root =>
          simp only [parsed, Except.ok.injEq, exists_and_left, exists_eq_left', Option.some.injEq]
          exact (checkDocument_checked (d.replace root)).passes

theorem parseConfig_of_root {parser : DocumentParser} {file : ConfigFile} {text : Bytes}
    {root : Value} (read : readFile file = .ok text) (parsed : parser.parse text = some root)
    (d : JconfPrivate) : parseConfig parser file d = checkDocument (d.replace root) := by
  rw [parseConfig, read]
  simp only [parsed]

/-- Whatever was parsed before: `parse_config` succeeds exactly if the file can be read and the
parser finds a document in it that describes settings, and exactly these settings are what the
accessors then give. -/
theorem parseConfig_gives_iff (parser : DocumentParser) (file : ConfigFile) (d : JconfPrivate) :
    ((parseConfig parser file d).1 = none ↔
      ∃ text root settings, readFile file = .ok text ∧ parser.parse text = some root ∧
        Describes root settings) ∧
    ∀ settings,
      ((parseConfig parser file d).1 = none ∧ Gives (parseConfig parser file d).2 settings ↔
        ∃ text root, readFile file = .ok text ∧ parser.parse text = some root ∧
          Describes root settings) := by
  have succeeds := parseConfig_succeeds_iff parser file d
  constructor
  · rw [succeeds]
    constructor
    · rintro ⟨text, root, read, parsed, valid⟩
      obtain ⟨settings, describes⟩ := valid.describes
      exact ⟨text, root, settings, read, parsed, describes⟩
    · rintro ⟨text, root, settings, read, parsed, describes⟩
      exact ⟨text, root, read, parsed, describes.valid⟩
  · intro settings
    constructor
    · rintro ⟨succeeded, gives⟩
      obtain ⟨text, root, read, parsed, -⟩ := succeeds.mp succeeded
      rw [parseConfig_of_root read parsed] at succeeded gives
      have points := (checkDocument_checked (d.replace root)).points succeeded
      exact ⟨text, root, read, parsed, (gives_iff points settings).mp gives⟩
    · rintro ⟨text, root, read, parsed, describes⟩
      have succeeded := succeeds.mpr ⟨text, root, read, parsed, describes.valid⟩
      refine ⟨succeeded, ?_⟩
      rw [parseConfig_of_root read parsed] at succeeded ⊢
      have points := (checkDocument_checked (d.replace root)).points succeeded
      exact (gives_iff points settings).mpr describes

end EpicMiner.Config
