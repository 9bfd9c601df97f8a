import EpicMiner.Config.Parsing

/-!
Owns what a failed second `parse_config` leaves of the first configuration. The
document is replaced before it is checked, and the pointers into it one by one
between the exits, so the first configuration is kept exactly if the call fails
before the document is replaced.
-/

namespace EpicMiner.Config

open EpicMiner.Data

/-- All accessors give the values of the first configuration, and no pointer leads into a document
that was replaced. -/
structure KeepsFirst (first second : JconfPrivate) : Prop where
  count : getPoolCount second = getPoolCount first
  config : ∀ n, getPoolConfig second n = getPoolConfig first n
  timeout : getNetworkTimeout second = getNetworkTimeout first
  retry : getNetworkRetry second = getNetworkRetry first
  current : ∀ i pointer, second.configValues i = some pointer → pointer.document = second.number

/-- The file can be read, and the parser replaces the document. -/
def Replaces (parser : DocumentParser) (file : ConfigFile) : Prop :=
  ∃ text, readFile file = .ok text ∧
    ((∃ root, parser.parse text = some root) ∨ parser.keepsDocument = false)

/-! ## After the first call -/

/-- The entries of the table, as values of the enumeration. -/
theorem exists_index (i : Fin 3) : ∃ name : ConfigEnum, name.index = i :=
  ⟨_, oConfigValues_inOrder i⟩

section First

variable {root : Value} {d : JconfPrivate}

/-- The pointers into a valid document are pointers to values of it. -/
theorem PointsInto.pointer (points : PointsInto d root) (valid : ValidDocument root) (i : Fin 3) :
    ∃ value, d.configValues i = some ⟨d.number, value⟩ := by
  obtain ⟨name, rfl⟩ := exists_index i
  cases name with
  | aPoolList =>
      obtain ⟨pools, isArray, -⟩ := valid.poolList
      exact ⟨_, by rw [points.pools, isArray]; rfl⟩
  | iNetworkTimeout =>
      obtain ⟨value, isNumber⟩ := valid.timeout
      exact ⟨_, by rw [points.timeout, isNumber]; rfl⟩
  | iNetworkRetry =>
      obtain ⟨value, isNumber⟩ := valid.retry
      exact ⟨_, by rw [points.retry, isNumber]; rfl⟩

theorem KeepsFirst.refl (points : PointsInto d root) (valid : ValidDocument root) :
    KeepsFirst d d := by
  refine ⟨rfl, fun _ => rfl, rfl, rfl, fun i pointer isPointer => ?_⟩
  obtain ⟨value, points⟩ := points.pointer valid i
  rw [points] at isPointer
  exact (congrArg JsVal.document (Option.some.inj isPointer)).symm

end First

/-! ## After the second call -/

section Second

variable {root : Value} {d d' : JconfPrivate}

/-- A pointer that leads into the current document is not one of the first call. -/
theorem not_first_pointer (points : PointsInto d root) (valid : ValidDocument root)
    (replaced : d'.number = d.number + 1) (keeps : KeepsFirst d d') (i : Fin 3) :
    d'.configValues i ≠ d.configValues i := by
  intro same
  obtain ⟨value, isFirst⟩ := points.pointer valid i
  have current := keeps.current i _ (same.trans isFirst)
  change d.number = d'.number at current
  omega

/-- Accessors that are kept are still safe. -/
theorem KeepsFirst.accessible (keeps : KeepsFirst d d') (first : Accessible d) : Accessible d' := by
  obtain ⟨count, counted, positive⟩ := first.count
  have counted' := keeps.count.trans counted
  refine ⟨?_, keeps.timeout ▸ first.timeout, keeps.retry ▸ first.retry, ⟨count, counted', positive⟩,
    fun other isOther n bound => ?_⟩
  · rw [getPoolCount, bind_eq_ok] at counted'
    obtain ⟨value, isValue, counts⟩ := counted'
    cases value with
    | array pools =>
        obtain rfl := Except.ok.inj counts
        exact ⟨pools, isValue, List.length_pos_iff.mp positive⟩
    | _ =>
        obtain rfl := Except.ok.inj counts
        exact absurd positive (Nat.lt_irrefl 0)
  · rw [keeps.config n]
    exact first.config other (keeps.count ▸ isOther) n bound

/-- If the checks of a new document keep the first configuration, the document is valid. -/
theorem valid_of_keepsFirst {first : Value} (points : PointsInto d first)
    (valid : ValidDocument first) (keeps : KeepsFirst d (checkDocument (d.replace root)).2) :
    ValidDocument root := by
  have checked := checkDocument_checked (d.replace root)
  have number : (checkDocument (d.replace root)).2.number = d.number + 1 := checked.number
  have stored : ∀ i, (checkDocument (d.replace root)).2.configValues i =
      (found root i).map (JsVal.mk (checkDocument (d.replace root)).2.number) := by
    intro i
    rcases checked.stored i with old | new
    · exact absurd old (not_first_pointer points valid number keeps i)
    · exact number ▸ new
  have newPoints : PointsInto (checkDocument (d.replace root)).2 root :=
    ⟨stored 0, stored 1, stored 2⟩
  have accessible := keeps.accessible ((accessible_iff valid.isObject points).mpr valid)
  have isObject : root.isObject = true := by
    obtain ⟨pools, isArray, -⟩ := accessible.poolList
    rw [deref_of_map newPoints.pools, pointee_eq_ok] at isArray
    cases root with
    | object members => rfl
    | _ => cases isArray
  exact (accessible_iff isObject newPoints).mp accessible

end Second

section Calls

variable {parser : DocumentParser} {file : ConfigFile}

/-- Before the document is replaced, a call changes nothing. -/
theorem parseConfig_of_not_replaces (kept : ¬Replaces parser file) (d : JconfPrivate) :
    (parseConfig parser file d).2 = d := by
  rw [parseConfig]
  cases read : readFile file with
  | error error => rfl
  | ok text =>
      rw [Replaces, not_exists] at kept
      obtain ⟨unparsed, keepsDocument⟩ := not_or.mp (not_and.mp (kept text) read)
      rw [not_exists] at unparsed
      have none : parser.parse text = none := Option.eq_none_iff_forall_ne_some.mpr unparsed
      simp only [none]
      exact if_pos (Bool.not_eq_false _ ▸ keepsDocument)

/-- Otherwise the new document is checked, or the parser has failed. -/
theorem parseConfig_of_replaces (replaces : Replaces parser file) (d : JconfPrivate) :
    (∃ root, parseConfig parser file d = checkDocument (d.replace root)) ∨
      parseConfig parser file d = (some .parseError, d.replace .null) := by
  obtain ⟨text, read, replaced⟩ := replaces
  rw [parseConfig, read]
  cases parsed : parser.parse text with
  | none =>
      have loses : parser.keepsDocument = false := by simpa [parsed] using replaced
      simp [parsed, loses]
  | some root => exact .inl ⟨root, by simp [parsed]⟩

end Calls

/-- After a successful call, a failed one keeps the configuration exactly if it fails before the
document is replaced: in `read_file`, or in a parser that leaves the document as it was. -/
theorem keepsFirst_iff (parser : DocumentParser) (first second : ConfigFile)
    (d d₁ d₂ : JconfPrivate) (error : ConfigError)
    (succeeded : parseConfig parser first d = (none, d₁))
    (failed : parseConfig parser second d₁ = (some error, d₂)) :
    KeepsFirst d₁ d₂ ↔ ¬Replaces parser second := by
  obtain ⟨root, valid, points⟩ := valid_of_success succeeded
  constructor
  · intro keeps replaces
    rcases parseConfig_of_replaces replaces d₁ with ⟨newRoot, checks⟩ | cleared
    · have checked := checkDocument_checked (d₁.replace newRoot)
      rw [failed] at checks
      have left : (checkDocument (d₁.replace newRoot)).2 = d₂ := by rw [← checks]
      have none := checked.passes.mpr (valid_of_keepsFirst points valid (left ▸ keeps))
      rw [← checks] at none
      cases none
    · have left : d₂ = d₁.replace .null := congrArg Prod.snd (failed.symm.trans cleared)
      exact not_first_pointer points valid (left ▸ rfl) keeps 0 (left ▸ rfl)
  · intro kept
    have same := parseConfig_of_not_replaces kept d₁
    rw [failed] at same
    obtain rfl : d₂ = d₁ := same
    exact KeepsFirst.refl points valid

/-! ## Sample reloads -/

def unreadableFile : ConfigFile :=
  ⟨"config.txt", none⟩

/-- The configuration that the sample file leaves. -/
def sampleConfig : JconfPrivate :=
  (parseConfig sampleParser sampleFile emptyConfig).2

theorem sampleConfig_eq : parseConfig sampleParser sampleFile emptyConfig = (none, sampleConfig) :=
  eq_of_error (by decide +kernel)

theorem keepsFirst_iff_unreadable :
    KeepsFirst sampleConfig (parseConfig sampleParser unreadableFile sampleConfig).2 := by
  have failed : (parseConfig sampleParser unreadableFile sampleConfig).1 =
      some (.cannotRead "config.txt") := by simp [parseConfig, readFile, unreadableFile]
  refine (keepsFirst_iff sampleParser sampleFile unreadableFile emptyConfig sampleConfig _
    (.cannotRead "config.txt") sampleConfig_eq (eq_of_error failed)).mpr ?_
  rintro ⟨text, read, -⟩
  cases read

/-- A configuration without pools, for a second call. -/
def poollessFile : ConfigFile :=
  ⟨"config.txt", some (ascii "\"network_timeout\":20")⟩

def poollessParser : DocumentParser :=
  .ofTexts [(ascii "\x7b" ++ sampleText ++ ascii "\x7d", sampleRoot),
    (ascii "\x7b\"network_timeout\":20\x7d", .object [(ascii "network_timeout", .number (some 20))])]

def firstConfig : JconfPrivate :=
  (parseConfig poollessParser sampleFile emptyConfig).2

def poollessConfig : JconfPrivate :=
  (parseConfig poollessParser poollessFile firstConfig).2

/-- After the failed call, the number of pools is read through a null pointer. -/
theorem poolless_not_keepsFirst :
    (parseConfig poollessParser sampleFile emptyConfig).1 = none ∧
      (parseConfig poollessParser poollessFile firstConfig).1 = some (.missingValue "pool_list") ∧
      getPoolCount poollessConfig = .error .nullPointer ∧
      ¬KeepsFirst firstConfig poollessConfig := by
  have counted : getPoolCount firstConfig = .ok 1 := by decide +kernel
  have null : getPoolCount poollessConfig = .error .nullPointer := by decide +kernel
  refine ⟨by decide +kernel, by decide +kernel, null, fun keeps => ?_⟩
  have same := keeps.count
  rw [counted, null] at same
  cases same

end EpicMiner.Config
