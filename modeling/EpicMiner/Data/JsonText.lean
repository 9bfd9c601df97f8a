import EpicMiner.Data.Json

/-!
Owns the grammar of JSON texts: what a text says to whoever parses it, read byte
by byte and without UTF-8 validation. It is not the parser of the repository.
-/

namespace EpicMiner.Data.JsonText

def skipBlanks (text : Bytes) : Bytes :=
  text.dropWhile isBlank

/-- The text behind a structural character. -/
def expect (token : UInt8) (text : Bytes) : Option Bytes :=
  match skipBlanks text with
  | [] => none
  | byte :: rest => if byte = token then some rest else none

/-! ## Strings -/

def hexDigit (byte : UInt8) : Option Nat :=
  if 48 ≤ byte ∧ byte ≤ 57 then some (byte.toNat - 48)
  else if 97 ≤ byte ∧ byte ≤ 102 then some (byte.toNat - 87)
  else if 65 ≤ byte ∧ byte ≤ 70 then some (byte.toNat - 55)
  else none

/-- A UTF-16 code unit in four hex digits. -/
def readUnit : Bytes → Option (Nat × Bytes)
  | first :: second :: third :: fourth :: rest => do
      let first ← hexDigit first
      let second ← hexDigit second
      let third ← hexDigit third
      let fourth ← hexDigit fourth
      return (4096 * first + 256 * second + 16 * third + fourth, rest)
  | _ => none

def utf8 (code : Nat) : Bytes :=
  if code < 0x80 then [code.toUInt8]
  else if code < 0x800 then [(0xc0 + code / 64).toUInt8, (0x80 + code % 64).toUInt8]
  else if code < 0x10000 then
    [(0xe0 + code / 4096).toUInt8, (0x80 + code / 64 % 64).toUInt8, (0x80 + code % 64).toUInt8]
  else
    [(0xf0 + code / 262144).toUInt8, (0x80 + code / 4096 % 64).toUInt8,
      (0x80 + code / 64 % 64).toUInt8, (0x80 + code % 64).toUInt8]

/-- What follows `\u`. A surrogate comes as one of a pair. -/
def readUnicode (text : Bytes) : Option (Bytes × Bytes) := do
  let (unit, rest) ← readUnit text
  if 0xd800 ≤ unit ∧ unit < 0xdc00 then
    match rest with
    | backslash :: letter :: rest =>
        if backslash = 92 ∧ letter = 117 then
          let (low, rest) ← readUnit rest
          if 0xdc00 ≤ low ∧ low < 0xe000 then
            return (utf8 (0x10000 + 1024 * (unit - 0xd800) + (low - 0xdc00)), rest)
          else none
        else none
    | _ => none
  else if 0xdc00 ≤ unit ∧ unit < 0xe000 then none
  else return (utf8 unit, rest)

def simpleEscape (byte : UInt8) : Option UInt8 :=
  if byte = 34 ∨ byte = 92 ∨ byte = 47 then some byte
  else if byte = 98 then some 8
  else if byte = 102 then some 12
  else if byte = 110 then some 10
  else if byte = 114 then some 13
  else if byte = 116 then some 9
  else none

/-- What follows a backslash. -/
def readEscape : Bytes → Option (Bytes × Bytes)
  | [] => none
  | byte :: rest =>
      if byte = 117 then readUnicode rest
      else (simpleEscape byte).map fun decoded => ([decoded], rest)

/-- What follows an opening quote, up to the closing one. -/
def readStringFrom : Nat → Bytes → Option (Bytes × Bytes)
  | 0, _ => none
  | _ + 1, [] => none
  | fuel + 1, byte :: rest =>
      if byte = 34 then some ([], rest)
      else if byte = 92 then do
        let (decoded, rest) ← readEscape rest
        let (value, rest) ← readStringFrom fuel rest
        return (decoded ++ value, rest)
      else if byte < 32 then none
      else do
        let (value, rest) ← readStringFrom fuel rest
        return (byte :: value, rest)

def readString (text : Bytes) : Option (Bytes × Bytes) :=
  readStringFrom text.length text

/-! ## Numbers -/

def isDigit (byte : UInt8) : Bool :=
  48 ≤ byte && byte ≤ 57

def readDigits (text : Bytes) : Option (Bytes × Bytes) :=
  match text.takeWhile isDigit with
  | [] => none
  | first :: others => some (first :: others, text.dropWhile isDigit)

def valueOf (digits : Bytes) : Nat :=
  digits.foldl (fun value digit => 10 * value + (digit.toNat - 48)) 0

/-- A fraction, if there is one. -/
def readFraction : Bytes → Option (Bool × Bytes)
  | [] => some (false, [])
  | byte :: rest =>
      if byte = 46 then (readDigits rest).map fun digits => (true, digits.2)
      else some (false, byte :: rest)

def skipSign : Bytes → Bytes
  | [] => []
  | byte :: rest => if byte = 43 ∨ byte = 45 then rest else byte :: rest

/-- An exponent, if there is one. -/
def readExponent : Bytes → Option (Bool × Bytes)
  | [] => some (false, [])
  | byte :: rest =>
      if byte = 101 ∨ byte = 69 then (readDigits (skipSign rest)).map fun digits => (true, digits.2)
      else some (false, byte :: rest)

def readMagnitude (negative : Bool) (text : Bytes) : Option (Value × Bytes) := do
  let (digits, rest) ← readDigits text
  if digits.head? = some 48 ∧ digits ≠ [48] then none
  else
    let (fraction, rest) ← readFraction rest
    let (exponent, rest) ← readExponent rest
    let value := valueOf digits
    if fraction ∨ exponent ∨ negative ∧ value ≠ 0 ∨ 4294967296 ≤ value then
      return (.number none, rest)
    else return (.number (some value.toUInt32), rest)

def readNumber : Bytes → Option (Value × Bytes)
  | [] => none
  | byte :: rest => if byte = 45 then readMagnitude true rest else readMagnitude false (byte :: rest)

/-! ## Values -/

def readWord (word : Bytes) (value : Value) (text : Bytes) : Option (Value × Bytes) :=
  if word.isPrefixOf text then some (value, text.drop word.length) else none

section Nesting

/-- What follows an item: others, or the end of the list. -/
def readNext {α : Type} (close : UInt8) (more : Bytes → Option (List α × Bytes)) (item : α)
    (text : Bytes) : Option (List α × Bytes) :=
  match expect 44 text with
  | some rest => (more rest).map fun others => (item :: others.1, others.2)
  | none => (expect close text).map fun rest => ([item], rest)

-- The reader of what is nested one level deeper.
variable (read : Bytes → Option (Value × Bytes))

def readItems : Nat → Bytes → Option (List Value × Bytes)
  | 0, _ => none
  | fuel + 1, text => (read text).bind fun value => readNext 93 (readItems fuel) value.1 value.2

def readMembers : Nat → Bytes → Option (List (Bytes × Value) × Bytes)
  | 0, _ => none
  | fuel + 1, text => do
      let (key, rest) ← readString (← expect 34 text)
      let (value, rest) ← read (← expect 58 rest)
      readNext 125 (readMembers fuel) (key, value) rest

end Nesting

/-- A value at most so deep, and what follows it. -/
def readValue : Nat → Bytes → Option (Value × Bytes)
  | 0, _ => none
  | depth + 1, text =>
      match skipBlanks text with
      | [] => none
      | byte :: rest =>
          if byte = 123 then
            match expect 125 rest with
            | some rest => some (.object [], rest)
            | none =>
                (readMembers (readValue depth) rest.length rest).map fun members =>
                  (.object members.1, members.2)
          else if byte = 91 then
            match expect 93 rest with
            | some rest => some (.array [], rest)
            | none =>
                (readItems (readValue depth) rest.length rest).map fun items =>
                  (.array items.1, items.2)
          else if byte = 34 then (readString rest).map fun string => (.string string.1, string.2)
          else if byte = 116 then readWord (ascii "rue") (.bool true) rest
          else if byte = 102 then readWord (ascii "alse") (.bool false) rest
          else if byte = 110 then readWord (ascii "ull") .null rest
          else readNumber (byte :: rest)

/-- A whole text. -/
def readDocument (text : Bytes) : Option Value :=
  (readValue text.length text).bind fun value =>
    if skipBlanks value.2 = [] then some value.1 else none

/-! ## What a reader consumes -/

/-- `rest` is left of `text` behind a part without NUL characters. -/
def Consumes (text rest : Bytes) : Prop :=
  ∃ used, text = used ++ rest ∧ 0 ∉ used

namespace Consumes

theorem refl (text : Bytes) : Consumes text text :=
  ⟨[], rfl, by simp⟩

theorem trans {first second third : Bytes} (left : Consumes first second)
    (right : Consumes second third) : Consumes first third := by
  obtain ⟨used, rfl, clean⟩ := left
  obtain ⟨more, rfl, cleanMore⟩ := right
  exact ⟨used ++ more, by simp, by simp [clean, cleanMore]⟩

theorem cons {byte : UInt8} {text rest : Bytes} (nonzero : byte ≠ 0)
    (consumes : Consumes text rest) : Consumes (byte :: text) rest := by
  obtain ⟨used, rfl, clean⟩ := consumes
  exact ⟨byte :: used, rfl, by simp [clean, nonzero.symm]⟩

theorem takeWhile {accept : UInt8 → Bool} (excludes : accept 0 = false) (text : Bytes) :
    Consumes text (text.dropWhile accept) := by
  refine ⟨text.takeWhile accept, List.takeWhile_append_dropWhile.symm, fun member => ?_⟩
  have accepted := List.mem_takeWhile_imp member
  rw [excludes] at accepted
  cases accepted

theorem skipBlanks (text : Bytes) : Consumes text (skipBlanks text) :=
  takeWhile (by decide) text

theorem of_skipBlanks {text rest : Bytes} {byte : UInt8} (nonzero : byte ≠ 0)
    (starts : JsonText.skipBlanks text = byte :: rest) : Consumes text rest :=
  (skipBlanks text).trans (starts ▸ (refl rest).cons nonzero)

theorem expect {token : UInt8} {text rest : Bytes} (nonzero : token ≠ 0)
    (expected : expect token text = some rest) : Consumes text rest := by
  unfold JsonText.expect at expected
  split at expected
  · cases expected
  · rename_i byte others starts
    split at expected
    · rename_i same
      cases expected
      exact of_skipBlanks (same ▸ nonzero) starts
    · cases expected

theorem readDigits {text digits rest : Bytes} (read : readDigits text = some (digits, rest)) :
    Consumes text rest := by
  unfold JsonText.readDigits at read
  split at read
  · cases read
  · cases read
    exact takeWhile (by decide) text

theorem readFraction {text rest : Bytes} {found : Bool}
    (read : readFraction text = some (found, rest)) : Consumes text rest := by
  cases text with
  | nil =>
      cases read
      exact refl []
  | cons byte others =>
      rw [JsonText.readFraction] at read
      split at read
      · rename_i point
        obtain ⟨digits, digitsRead, same⟩ := Option.map_eq_some_iff.mp read
        cases same
        exact (readDigits digitsRead).cons (by rw [point]; decide)
      · cases read
        exact refl _

theorem skipSign (text : Bytes) : Consumes text (skipSign text) := by
  cases text with
  | nil => exact refl []
  | cons byte rest =>
      rw [JsonText.skipSign]
      split
      · rename_i sign
        apply (refl rest).cons
        rintro rfl
        exact absurd sign (by decide)
      · exact refl _

theorem readExponent {text rest : Bytes} {found : Bool}
    (read : readExponent text = some (found, rest)) : Consumes text rest := by
  cases text with
  | nil =>
      cases read
      exact refl []
  | cons byte others =>
      rw [JsonText.readExponent] at read
      split at read
      · rename_i letter
        obtain ⟨digits, digitsRead, same⟩ := Option.map_eq_some_iff.mp read
        cases same
        apply ((skipSign others).trans (readDigits digitsRead)).cons
        rintro rfl
        exact absurd letter (by decide)
      · cases read
        exact refl _

theorem readMagnitude {negative : Bool} {text rest : Bytes} {value : Value}
    (read : readMagnitude negative text = some (value, rest)) : Consumes text rest := by
  unfold JsonText.readMagnitude at read
  obtain ⟨⟨digits, afterDigits⟩, digitsRead, read⟩ := Option.bind_eq_some_iff.mp read
  dsimp only at read
  split at read
  · cases read
  · obtain ⟨⟨fraction, afterFraction⟩, fractionRead, read⟩ := Option.bind_eq_some_iff.mp read
    obtain ⟨⟨exponent, afterExponent⟩, exponentRead, read⟩ := Option.bind_eq_some_iff.mp read
    have consumes := ((readDigits digitsRead).trans (readFraction fractionRead)).trans
      (readExponent exponentRead)
    dsimp only at read
    split at read <;> cases read <;> exact consumes

theorem readNumber {text rest : Bytes} {value : Value}
    (read : readNumber text = some (value, rest)) : Consumes text rest := by
  cases text with
  | nil => cases read
  | cons byte others =>
      rw [JsonText.readNumber] at read
      split at read
      · rename_i minus
        exact (readMagnitude read).cons (by rw [minus]; decide)
      · exact readMagnitude read

theorem readWord {word text rest : Bytes} {value result : Value} (clean : 0 ∉ word)
    (read : readWord word value text = some (result, rest)) : Consumes text rest := by
  unfold JsonText.readWord at read
  split at read
  · rename_i starts
    cases read
    obtain ⟨behind, rfl⟩ := List.isPrefixOf_iff_prefix.mp starts
    exact ⟨word, by simp, clean⟩
  · cases read

end Consumes

/-! ### Strings -/

/-- Bytes that stand for themselves in a string. -/
def Plain (bytes : Bytes) : Prop :=
  ∀ byte ∈ bytes, 32 ≤ byte ∧ byte ≠ 34 ∧ byte ≠ 92

/-- `used` spells `value` between the quotes: as it is, or with escapes, which are
longer than what they stand for. A quote inside is one that was escaped. -/
structure Spells (used value : Bytes) : Prop where
  clean : 0 ∉ used
  quotes : ∀ before after, used = before ++ 34 :: after → ∃ others, before = others ++ [92]
  plain : used = value ∧ Plain used ∨ value.length < used.length

theorem hexDigit_isSome {byte : UInt8} {value : Nat} (digit : hexDigit byte = some value) :
    byte ≠ 0 ∧ byte ≠ 34 := by
  constructor
  · rintro rfl
    exact absurd digit (by simp [hexDigit])
  · rintro rfl
    exact absurd digit (by simp [hexDigit])

theorem readUnit_eq_some {text rest : Bytes} {unit : Nat}
    (read : readUnit text = some (unit, rest)) :
    ∃ used, text = used ++ rest ∧ used.length = 4 ∧ 0 ∉ used ∧ 34 ∉ used := by
  unfold readUnit at read
  split at read
  · rename_i first second third fourth behind
    obtain ⟨_, firstDigit, read⟩ := Option.bind_eq_some_iff.mp read
    obtain ⟨_, secondDigit, read⟩ := Option.bind_eq_some_iff.mp read
    obtain ⟨_, thirdDigit, read⟩ := Option.bind_eq_some_iff.mp read
    obtain ⟨_, fourthDigit, read⟩ := Option.bind_eq_some_iff.mp read
    cases read
    obtain ⟨firstClean, firstInner⟩ := hexDigit_isSome firstDigit
    obtain ⟨secondClean, secondInner⟩ := hexDigit_isSome secondDigit
    obtain ⟨thirdClean, thirdInner⟩ := hexDigit_isSome thirdDigit
    obtain ⟨fourthClean, fourthInner⟩ := hexDigit_isSome fourthDigit
    refine ⟨[first, second, third, fourth], rfl, rfl, ?_, ?_⟩
    · simp [firstClean.symm, secondClean.symm, thirdClean.symm, fourthClean.symm]
    · simp [firstInner.symm, secondInner.symm, thirdInner.symm, fourthInner.symm]
  · cases read

theorem length_utf8_le (code : Nat) : (utf8 code).length ≤ 4 := by
  unfold utf8
  split
  · simp
  · split
    · simp
    · split <;> simp

theorem readUnicode_eq_some {text decoded rest : Bytes}
    (read : readUnicode text = some (decoded, rest)) :
    ∃ used, text = used ++ rest ∧ decoded.length ≤ used.length ∧ 0 ∉ used ∧ 34 ∉ used := by
  unfold readUnicode at read
  obtain ⟨⟨unit, behind⟩, unitRead, decodes⟩ := Option.bind_eq_some_iff.mp read
  obtain ⟨used, same, length, clean, inner⟩ := readUnit_eq_some unitRead
  dsimp only at decodes
  split at decodes
  · split at decodes
    · rename_i backslash letter others
      split at decodes
      · rename_i escape
        obtain ⟨⟨low, last⟩, lowRead, paired⟩ := Option.bind_eq_some_iff.mp decodes
        obtain ⟨more, sameMore, lengthMore, cleanMore, innerMore⟩ := readUnit_eq_some lowRead
        dsimp only at paired
        split at paired
        · injection paired with paired
          injection paired with sameDecoded sameRest
          rw [← sameDecoded, ← sameRest]
          refine ⟨used ++ 92 :: 117 :: more, ?_, ?_, by simp [clean, cleanMore],
            by simp [inner, innerMore]⟩
          · rw [same, sameMore, escape.1, escape.2]
            simp
          · have short := length_utf8_le (0x10000 + 1024 * (unit - 0xd800) + (low - 0xdc00))
            simp only [List.length_append, List.length_cons]
            omega
        · cases paired
      · cases decodes
    · cases decodes
  · split at decodes
    · cases decodes
    · cases decodes
      exact ⟨used, same, (length_utf8_le unit).trans (by omega), clean, inner⟩

theorem simpleEscape_eq_some {byte decoded : UInt8} (escape : simpleEscape byte = some decoded) :
    byte ≠ 0 := by
  rintro rfl
  exact absurd escape (by simp [simpleEscape])

theorem readEscape_eq_some {text decoded rest : Bytes}
    (read : readEscape text = some (decoded, rest)) :
    ∃ used, text = used ++ rest ∧ decoded.length ≤ used.length ∧ 0 ∉ used ∧
      (34 ∈ used → used = [34]) := by
  cases text with
  | nil => cases read
  | cons byte behind =>
      rw [readEscape] at read
      split at read
      · rename_i letter
        obtain ⟨used, rfl, length, clean, inner⟩ := readUnicode_eq_some read
        refine ⟨byte :: used, rfl, Nat.le_succ_of_le length, ?_, ?_⟩
        · simp [letter, clean]
        · simp [letter, inner]
      · obtain ⟨simple, escape, same⟩ := Option.map_eq_some_iff.mp read
        cases same
        refine ⟨[byte], rfl, Nat.le_refl _, ?_, ?_⟩
        · simp [(simpleEscape_eq_some escape).symm]
        · intro member
          rw [List.mem_singleton.mp member]

namespace Spells

variable {used value : Bytes}

theorem nil : Spells [] [] where
  clean := by simp
  quotes := by
    intro before after split
    cases before <;> cases split
  plain := .inl ⟨rfl, by simp [Plain]⟩

theorem length_le (spells : Spells used value) : value.length ≤ used.length := by
  rcases spells.plain with ⟨same, -⟩ | shorter
  · rw [same]
  · exact Nat.le_of_lt shorter

theorem cons {byte : UInt8} (printable : 32 ≤ byte) (notQuote : byte ≠ 34)
    (notBackslash : byte ≠ 92) (spells : Spells used value) :
    Spells (byte :: used) (byte :: value) where
  clean := by
    have nonzero : (0 : UInt8) ≠ byte := by
      rintro rfl
      exact absurd printable (by decide)
    simp [nonzero, spells.clean]
  quotes := by
    intro before after split
    cases before with
    | nil =>
        injection split with same
        exact absurd same notQuote
    | cons first before =>
        injection split with same split
        obtain ⟨others, rfl⟩ := spells.quotes before after split
        exact ⟨first :: others, rfl⟩
  plain := by
    rcases spells.plain with ⟨rfl, plain⟩ | shorter
    · exact .inl ⟨rfl, by simpa [Plain] using ⟨⟨printable, notQuote, notBackslash⟩, plain⟩⟩
    · exact .inr (Nat.succ_lt_succ shorter)

theorem escape {decoded escaped : Bytes} (length : decoded.length ≤ escaped.length)
    (clean : 0 ∉ escaped) (quote : 34 ∈ escaped → escaped = [34]) (spells : Spells used value) :
    Spells (92 :: (escaped ++ used)) (decoded ++ value) where
  clean := by simp [clean, spells.clean]
  quotes := by
    intro before after split
    cases before with
    | nil =>
        injection split with same
        exact absurd same (by decide)
    | cons first before =>
        injection split with same split
        subst same
        rcases List.append_eq_append_iff.mp split with
          ⟨middle, rfl, inner⟩ | ⟨middle, parts, inner⟩
        · obtain ⟨others, rfl⟩ := spells.quotes middle after inner
          exact ⟨92 :: (escaped ++ others), by simp⟩
        · cases middle with
          | nil =>
              obtain ⟨others, empty⟩ := spells.quotes [] after inner.symm
              simp at empty
          | cons byte middle =>
              injection inner with same
              subst same
              have only := quote (by rw [parts]; simp)
              rw [only] at parts
              cases before with
              | nil => exact ⟨[], rfl⟩
              | cons _ before => simp at parts
  plain := by
    have shorter := spells.length_le
    apply Or.inr
    simp only [List.length_append, List.length_cons]
    omega

end Spells

theorem readStringFrom_spells {fuel : Nat} {text value rest : Bytes}
    (read : readStringFrom fuel text = some (value, rest)) :
    ∃ used, text = used ++ 34 :: rest ∧ Spells used value := by
  induction fuel generalizing text value with
  | zero => cases read
  | succ fuel inductionHypothesis =>
      cases text with
      | nil => cases read
      | cons byte behind =>
          rw [readStringFrom] at read
          split at read
          · rename_i quote
            cases read
            exact ⟨[], by rw [quote]; rfl, .nil⟩
          · rename_i notQuote
            split at read
            · rename_i backslash
              obtain ⟨⟨decoded, afterEscape⟩, escapeRead, remaining⟩ :=
                Option.bind_eq_some_iff.mp read
              obtain ⟨⟨others, last⟩, othersRead, result⟩ := Option.bind_eq_some_iff.mp remaining
              cases result
              obtain ⟨escaped, rfl, length, clean, inner⟩ := readEscape_eq_some escapeRead
              obtain ⟨used, rfl, spells⟩ := inductionHypothesis othersRead
              exact ⟨92 :: (escaped ++ used), by simp [backslash],
                spells.escape length clean inner⟩
            · rename_i notBackslash
              split at read
              · cases read
              · rename_i printable
                obtain ⟨⟨others, last⟩, othersRead, result⟩ := Option.bind_eq_some_iff.mp read
                cases result
                obtain ⟨used, rfl, spells⟩ := inductionHypothesis othersRead
                exact ⟨byte :: used, rfl,
                  spells.cons (UInt8.not_lt.mp printable) notQuote notBackslash⟩

/-! ### Values -/

theorem Consumes.readString {text value rest : Bytes}
    (read : readString text = some (value, rest)) : Consumes text rest := by
  obtain ⟨used, rfl, spells⟩ := readStringFrom_spells read
  exact ⟨used ++ [34], by simp, by simp [spells.clean]⟩

section Nesting

theorem Consumes.readNext {α : Type} {close : UInt8} (nonzero : close ≠ 0)
    {more : Bytes → Option (List α × Bytes)}
    (consumes : ∀ text items rest, more text = some (items, rest) → Consumes text rest) {item : α}
    {text rest : Bytes} {items : List α}
    (found : readNext close more item text = some (items, rest)) : Consumes text rest := by
  unfold JsonText.readNext at found
  split at found
  · rename_i comma
    obtain ⟨others, othersRead, same⟩ := Option.map_eq_some_iff.mp found
    cases same
    exact (Consumes.expect (by decide) comma).trans (consumes _ _ _ othersRead)
  · obtain ⟨last, closing, same⟩ := Option.map_eq_some_iff.mp found
    cases same
    exact .expect nonzero closing

variable {read : Bytes → Option (Value × Bytes)}
  (consumes : ∀ text value rest, read text = some (value, rest) → Consumes text rest)

include consumes

theorem Consumes.readItems {fuel : Nat} {text rest : Bytes} {items : List Value}
    (found : readItems read fuel text = some (items, rest)) : Consumes text rest := by
  induction fuel generalizing text items rest with
  | zero => cases found
  | succ fuel inductionHypothesis =>
      rw [JsonText.readItems] at found
      obtain ⟨⟨value, behind⟩, valueRead, next⟩ := Option.bind_eq_some_iff.mp found
      have first := consumes text value behind valueRead
      exact first.trans (.readNext (by decide) (fun _ _ _ => inductionHypothesis) next)

theorem Consumes.readMembers {fuel : Nat} {text rest : Bytes} {members : List (Bytes × Value)}
    (found : readMembers read fuel text = some (members, rest)) : Consumes text rest := by
  induction fuel generalizing text members rest with
  | zero => cases found
  | succ fuel inductionHypothesis =>
      rw [JsonText.readMembers] at found
      obtain ⟨opened, quote, found⟩ := Option.bind_eq_some_iff.mp found
      obtain ⟨⟨key, named⟩, keyRead, found⟩ := Option.bind_eq_some_iff.mp found
      obtain ⟨behindColon, colon, found⟩ := Option.bind_eq_some_iff.mp found
      obtain ⟨⟨value, behind⟩, valueRead, next⟩ := Option.bind_eq_some_iff.mp found
      have name : Consumes text behindColon :=
        ((Consumes.expect (by decide) quote).trans (.readString keyRead)).trans
          (.expect (by decide) colon)
      have first := name.trans (consumes _ value behind valueRead)
      exact first.trans (.readNext (by decide) (fun _ _ _ => inductionHypothesis) next)

end Nesting

theorem Consumes.readValue {depth : Nat} {text rest : Bytes} {value : Value}
    (found : readValue depth text = some (value, rest)) : Consumes text rest := by
  induction depth generalizing text value rest with
  | zero => cases found
  | succ depth inductionHypothesis =>
      have nested : ∀ text value rest, JsonText.readValue depth text = some (value, rest) →
          Consumes text rest := fun _ _ _ => inductionHypothesis
      rw [JsonText.readValue] at found
      split at found
      · cases found
      · rename_i byte behind starts
        have opened : byte ≠ 0 → Consumes text behind := fun nonzero => .of_skipBlanks nonzero starts
        split at found
        · rename_i brace
          have inside := opened (by rw [brace]; decide)
          split at found
          · rename_i closing
            cases found
            exact inside.trans (.expect (by decide) closing)
          · obtain ⟨members, membersRead, same⟩ := Option.map_eq_some_iff.mp found
            cases same
            exact inside.trans (.readMembers nested membersRead)
        · split at found
          · rename_i bracket
            have inside := opened (by rw [bracket]; decide)
            split at found
            · rename_i closing
              cases found
              exact inside.trans (.expect (by decide) closing)
            · obtain ⟨items, itemsRead, same⟩ := Option.map_eq_some_iff.mp found
              cases same
              exact inside.trans (.readItems nested itemsRead)
          · split at found
            · rename_i quote
              obtain ⟨string, stringRead, same⟩ := Option.map_eq_some_iff.mp found
              cases same
              exact (opened (by rw [quote]; decide)).trans (.readString stringRead)
            · split at found
              · rename_i letter
                exact (opened (by rw [letter]; decide)).trans (.readWord (by decide) found)
              · split at found
                · rename_i letter
                  exact (opened (by rw [letter]; decide)).trans (.readWord (by decide) found)
                · split at found
                  · rename_i letter
                    exact (opened (by rw [letter]; decide)).trans (.readWord (by decide) found)
                  · exact (starts ▸ Consumes.skipBlanks text).trans (.readNumber found)

/-- A text with a NUL character is no JSON text. -/
theorem not_mem_of_readDocument {text : Bytes} {value : Value}
    (found : readDocument text = some value) : 0 ∉ text := by
  unfold readDocument at found
  obtain ⟨⟨root, rest⟩, valueRead, ends⟩ := Option.bind_eq_some_iff.mp found
  split at ends
  · rename_i blank
    obtain ⟨used, rfl, clean⟩ := Consumes.readValue valueRead
    have blanks := List.dropWhile_eq_nil_iff.mp blank
    intro member
    rcases List.mem_append.mp member with inside | behind
    · exact clean inside
    · exact absurd (blanks 0 behind) (by decide)
  · cases ends

end EpicMiner.Data.JsonText
