import EpicMiner.Data.JsonText

/-!
Owns the reading of JSON texts that are put together from parts: strings that stand
for themselves, raw text in place of a string, members and decimals.
-/

namespace EpicMiner.Data.JsonText

/-! ## Strings -/

instance (bytes : Bytes) : Decidable (Plain bytes) := by
  unfold Plain
  exact List.decidableBAll _ _

theorem Plain.zero_not_mem {bytes : Bytes} (plain : Plain bytes) : 0 ∉ bytes :=
  fun member => absurd (plain 0 member).1 (by decide)

theorem Plain.newline_not_mem {bytes : Bytes} (plain : Plain bytes) : 10 ∉ bytes :=
  fun member => absurd (plain 10 member).1 (by decide)

theorem Plain.cString_eq {bytes : Bytes} (plain : Plain bytes) : cString bytes = bytes :=
  cString_of_not_mem plain.zero_not_mem

/-- A raw text that is put between quotes and followed by a member whose name starts
with `next` is read up to its quote, or up to the quote before `next`. -/
theorem Spells.field {used value raw tail rest : Bytes} {next : UInt8}
    (spells : Spells used value)
    (split : raw ++ 34 :: 44 :: 34 :: next :: tail = used ++ 34 :: rest)
    (long : raw.length ≤ value.length) :
    Plain raw ∧ value = raw ∨ rest = next :: tail := by
  have whole : used = raw → Plain raw ∧ value = raw := by
    rintro rfl
    rcases spells.plain with ⟨same, plain⟩ | shorter
    · exact ⟨plain, same.symm⟩
    · omega
  rcases List.append_eq_append_iff.mp split with ⟨middle, parts, behind⟩ | ⟨middle, parts, -⟩
  · rcases middle with _ | ⟨_, _ | ⟨_, _ | ⟨_, middle⟩⟩⟩
    · exact .inl (whole (by simpa using parts))
    · cases behind
    · injection behind with _ behind
      injection behind with _ behind
      injection behind with _ behind
      exact .inr behind.symm
    · injection behind with first behind
      injection behind with second behind
      injection behind with third behind
      subst first second third
      obtain ⟨others, same⟩ := spells.quotes (raw ++ [34, 44]) middle (by rw [parts]; simp)
      have last := congrArg List.getLast? same
      simp at last
  · cases middle with
    | nil => exact .inl (whole (by simpa using parts.symm))
    | cons byte middle =>
        have shorter := spells.length_le
        rw [parts, List.length_append, List.length_cons] at long
        omega

theorem readStringFrom_plain {value : Bytes} (plain : Plain value) (rest : Bytes) {fuel : Nat}
    (enough : value.length < fuel) : readStringFrom fuel (value ++ 34 :: rest) = some (value, rest) := by
  induction value generalizing fuel with
  | nil =>
      cases fuel with
      | zero => cases enough
      | succ fuel => simp [readStringFrom]
  | cons byte value inductionHypothesis =>
      obtain ⟨printable, notQuote, notBackslash⟩ := plain byte (.head _)
      have others : Plain value := fun other member => plain other (.tail _ member)
      cases fuel with
      | zero => cases enough
      | succ fuel =>
          have read := inductionHypothesis others (Nat.lt_of_succ_lt_succ enough)
          simp [readStringFrom, notQuote, notBackslash, UInt8.not_lt.mpr printable, read]

theorem readString_plain {value : Bytes} (plain : Plain value) (rest : Bytes) :
    readString (value ++ 34 :: rest) = some (value, rest) :=
  readStringFrom_plain plain rest (by simp)

/-! ## Members -/

section Members

variable {read : Bytes → Option (Value × Bytes)}

theorem expect_self (token : UInt8) (unblank : isBlank token = false) (text : Bytes) :
    expect token (token :: text) = some text := by
  simp [expect, skipBlanks, unblank]

theorem expect_other {token byte : UInt8} (unblank : isBlank byte = false) (other : byte ≠ token)
    (text : Bytes) : expect token (byte :: text) = none := by
  simp [expect, skipBlanks, unblank, other]

theorem readNext_comma {α : Type} (close : UInt8) (more : Bytes → Option (List α × Bytes))
    (item : α) (text : Bytes) :
    readNext close more item (44 :: text) =
      (more text).map fun others => (item :: others.1, others.2) := by
  rw [readNext, expect_self 44 (by decide)]

theorem readNext_close {α : Type} {close : UInt8} (unblank : isBlank close = false)
    (other : close ≠ 44) (more : Bytes → Option (List α × Bytes)) (item : α) (text : Bytes) :
    readNext close more item (close :: text) = some ([item], text) := by
  rw [readNext, expect_other unblank other, expect_self close unblank]
  rfl

theorem readNext_eq_some {α : Type} {close : UInt8} {more : Bytes → Option (List α × Bytes)}
    {item : α} {text rest : Bytes} {items : List α}
    (found : readNext close more item text = some (items, rest)) :
    ∃ others, items = item :: others := by
  unfold readNext at found
  split at found
  · obtain ⟨others, -, same⟩ := Option.map_eq_some_iff.mp found
    cases same
    exact ⟨others.1, rfl⟩
  · obtain ⟨closed, -, same⟩ := Option.map_eq_some_iff.mp found
    cases same
    exact ⟨[], rfl⟩

/-- A member whose name stands for itself. -/
theorem readMembers_key {key : Bytes} (plain : Plain key) (fuel : Nat) (text : Bytes) :
    readMembers read (fuel + 1) (34 :: (key ++ 34 :: 58 :: text)) =
      (read text).bind fun value =>
        readNext 125 (readMembers read fuel) (key, value.1) value.2 := by
  rw [readMembers, expect_self 34 (by decide)]
  simp only [Option.bind_eq_bind, Option.bind_some, readString_plain plain,
    expect_self 58 (by decide)]

variable (strings : ∀ text,
  read (34 :: text) = (readString text).map fun string => (.string string.1, string.2))

include strings

theorem readMembers_string {key value : Bytes} (plainKey : Plain key) (plain : Plain value)
    (fuel : Nat) (text : Bytes) :
    readMembers read (fuel + 1) (34 :: (key ++ 34 :: 58 :: 34 :: (value ++ 34 :: 44 :: text))) =
      (readMembers read fuel text).map fun members =>
        ((key, .string value) :: members.1, members.2) := by
  rw [readMembers_key plainKey, strings, readString_plain plain]
  exact readNext_comma 125 _ _ text

theorem readMembers_last {key value : Bytes} (plainKey : Plain key) (plain : Plain value)
    (fuel : Nat) (text : Bytes) :
    readMembers read (fuel + 1) (34 :: (key ++ 34 :: 58 :: 34 :: (value ++ 34 :: 125 :: text))) =
      some ([(key, .string value)], text) := by
  rw [readMembers_key plainKey, strings, readString_plain plain]
  exact readNext_close (show isBlank 125 = false by decide) (by decide) (readMembers read fuel) _ text

/-- A raw text put in place of a string is read as a text of its own; unless that is
shorter, the raw text stands for itself. -/
theorem readMembers_raw {key raw tail rest : Bytes} {next : UInt8} (plainKey : Plain key)
    (unblank : isBlank next = false) (notComma : next ≠ 44) (notBrace : next ≠ 125)
    {fuel : Nat} {members : List (Bytes × Value)}
    (found : readMembers read (fuel + 1)
      (34 :: (key ++ 34 :: 58 :: 34 :: (raw ++ 34 :: 44 :: 34 :: next :: tail))) =
        some (members, rest)) :
    ∃ value others, members = (key, .string value) :: others ∧
      (raw.length ≤ value.length → Plain raw ∧ value = raw) := by
  rw [readMembers_key plainKey, strings] at found
  obtain ⟨⟨root, behind⟩, valueRead, ending⟩ := Option.bind_eq_some_iff.mp found
  obtain ⟨⟨value, last⟩, stringRead, same⟩ := Option.map_eq_some_iff.mp valueRead
  injection same with sameRoot sameBehind
  subst sameRoot sameBehind
  obtain ⟨used, split, spells⟩ := readStringFrom_spells stringRead
  change readNext 125 (readMembers read fuel) (key, .string value) last = _ at ending
  have inside : last ≠ next :: tail := by
    rintro rfl
    rw [readNext, expect_other unblank notComma, expect_other unblank notBrace] at ending
    cases ending
  obtain ⟨others, same⟩ := readNext_eq_some ending
  exact ⟨value, others, same, fun long => (spells.field split long).resolve_right inside⟩

end Members

theorem readValue_string (depth : Nat) (text : Bytes) :
    readValue (depth + 1) (34 :: text) =
      (readString text).map fun string => (.string string.1, string.2) := by
  simp [readValue, skipBlanks, isBlank]

theorem readValue_object (depth : Nat) (text : Bytes) :
    readValue (depth + 1) (123 :: 34 :: text) =
      (readMembers (readValue depth) (text.length + 1) (34 :: text)).map fun members =>
        (.object members.1, members.2) := by
  simp [readValue, skipBlanks, isBlank, expect]

/-! ## Decimals -/

/-- The digits of a number without leading zeros. -/
structure IsDecimal (digits : Bytes) : Prop where
  digit : ∀ byte ∈ digits, isDigit byte = true
  first : ∃ byte others, digits = byte :: others ∧ (byte = 48 → others = [])

theorem readDigits_append {digits : Bytes} (decimal : IsDecimal digits) {next : UInt8}
    (notDigit : isDigit next = false) (rest : Bytes) :
    readDigits (digits ++ next :: rest) = some (digits, next :: rest) := by
  obtain ⟨byte, others, same, -⟩ := decimal.first
  have taken : (digits ++ next :: rest).takeWhile isDigit = digits := by
    rw [List.takeWhile_append_of_pos decimal.digit]
    simp [notDigit]
  have dropped : (digits ++ next :: rest).dropWhile isDigit = next :: rest := by
    rw [List.dropWhile_append_of_pos decimal.digit]
    simp [notDigit]
  rw [readDigits, taken, dropped, same]

theorem IsDecimal.readValue_eq {digits : Bytes} (decimal : IsDecimal digits) (depth : Nat)
    (rest : Bytes) : readValue (depth + 1) (digits ++ rest) = readMagnitude false (digits ++ rest) := by
  obtain ⟨byte, others, rfl, -⟩ := decimal.first
  have digit : isDigit byte = true := decimal.digit byte (.head _)
  have other : ∀ token, isDigit token = false → byte ≠ token := by
    rintro token notDigit rfl
    rw [digit] at notDigit
    cases notDigit
  have unblank : isBlank byte = false := by
    simp [isBlank, other 0x20 (by decide), other 0x09 (by decide), other 0x0a (by decide),
      other 0x0d (by decide)]
  simp [readValue, skipBlanks, unblank, readNumber, other 123 (by decide), other 91 (by decide),
    other 34 (by decide), other 116 (by decide), other 102 (by decide), other 110 (by decide),
    other 45 (by decide)]

def decimalDigits (value : Nat) : Bytes :=
  ascii (toString value)

theorem decimalDigits_eq (value : Nat) :
    decimalDigits value = (Nat.toDigits 10 value).map fun char => char.toNat.toUInt8 := by
  rw [decimalDigits, ascii, Nat.toString_eq_ofList_toDigits, String.toList_ofList]

theorem isDigit_digitChar {digit : Nat} (small : digit < 10) :
    isDigit (Nat.digitChar digit).toNat.toUInt8 = true := by
  have every : ∀ digit < 10, isDigit (Nat.digitChar digit).toNat.toUInt8 = true := by decide
  exact every digit small

theorem digitChar_ne_zero {digit : Nat} (small : digit < 10) (positive : 0 < digit) :
    (Nat.digitChar digit).toNat.toUInt8 ≠ 48 := by
  have every : ∀ digit < 10, 0 < digit → (Nat.digitChar digit).toNat.toUInt8 ≠ 48 := by decide
  exact every digit small positive

/-- A positive number does not start with the digit zero. The induction drops the
last digit. -/
theorem decimalDigits_positive (value : Nat) (positive : 0 < value) :
    (∀ byte ∈ decimalDigits value, isDigit byte = true) ∧
      ∃ byte others, decimalDigits value = byte :: others ∧ byte ≠ 48 := by
  induction value using Nat.strongRecOn with
  | ind value inductionHypothesis =>
      rw [decimalDigits_eq, Nat.toDigits_eq_if (by decide)]
      split
      · rename_i small
        refine ⟨?_, _, [], rfl, digitChar_ne_zero small positive⟩
        intro byte member
        rw [List.mem_singleton.mp member]
        exact isDigit_digitChar small
      · rename_i large
        obtain ⟨digits, byte, others, first, nonzero⟩ :=
          inductionHypothesis (value / 10) (by omega) (by omega)
        rw [List.map_append, ← decimalDigits_eq]
        constructor
        · intro byte member
          rcases List.mem_append.mp member with front | last
          · exact digits byte front
          · rw [List.mem_singleton.mp last]
            exact isDigit_digitChar (Nat.mod_lt _ (by decide))
        · exact ⟨byte, others ++ [_], by rw [first]; rfl, nonzero⟩

theorem decimalDigits_isDecimal (value : Nat) : IsDecimal (decimalDigits value) := by
  rcases Nat.eq_zero_or_pos value with rfl | positive
  · have zero : decimalDigits 0 = [48] := by
      rw [decimalDigits_eq, Nat.toDigits_zero]
      rfl
    rw [zero]
    constructor
    · intro byte member
      rw [List.mem_singleton.mp member]
      rfl
    · exact ⟨48, [], rfl, fun _ => rfl⟩
  · obtain ⟨digits, byte, others, same, nonzero⟩ := decimalDigits_positive value positive
    exact ⟨digits, byte, others, same, fun zero => absurd zero nonzero⟩

theorem valueOf_append (digits : Bytes) (last : UInt8) :
    valueOf (digits ++ [last]) = 10 * valueOf digits + (last.toNat - 48) := by
  rw [valueOf, valueOf, List.foldl_append]
  rfl

theorem toNat_digitChar {digit : Nat} (small : digit < 10) :
    (Nat.digitChar digit).toNat.toUInt8.toNat - 48 = digit := by
  have every : ∀ digit < 10, (Nat.digitChar digit).toNat.toUInt8.toNat - 48 = digit := by decide
  exact every digit small

/-- The digits of a number are read as that number. -/
theorem valueOf_decimalDigits (value : Nat) : valueOf (decimalDigits value) = value := by
  induction value using Nat.strongRecOn with
  | ind value inductionHypothesis =>
      rw [decimalDigits_eq, Nat.toDigits_eq_if (by decide)]
      split
      · rename_i small
        simpa [valueOf] using toNat_digitChar small
      · rename_i large
        rw [List.map_append, ← decimalDigits_eq, List.map_singleton, valueOf_append,
          inductionHypothesis (value / 10) (by omega), toNat_digitChar (Nat.mod_lt _ (by decide))]
        omega

/-- A word of 32 bits in front of a closing brace. -/
theorem readValue_decimalDigits (value : UInt32) (depth : Nat) (rest : Bytes) :
    readValue (depth + 1) (decimalDigits value.toNat ++ 125 :: rest) =
      some (.number (some value), 125 :: rest) := by
  have isDecimal := decimalDigits_isDecimal value.toNat
  have noZero : ¬((decimalDigits value.toNat).head? = some 48 ∧
      decimalDigits value.toNat ≠ [48]) := by
    obtain ⟨byte, others, same, leading⟩ := isDecimal.first
    rw [same]
    rintro ⟨zero, more⟩
    cases zero
    exact more (by rw [leading rfl])
  have fraction : readFraction (125 :: rest) = some (false, 125 :: rest) := by simp [readFraction]
  have exponent : readExponent (125 :: rest) = some (false, 125 :: rest) := by simp [readExponent]
  have bound : value.toNat < 4294967296 := value.toNat_lt
  rw [isDecimal.readValue_eq, readMagnitude, readDigits_append isDecimal (by decide) rest]
  simp [noZero, fraction, exponent, valueOf_decimalDigits, bound]

end EpicMiner.Data.JsonText
