import EpicMiner.Data.Hex
import Mathlib.Algebra.Group.Nat.Defs

/-!
Owns the loops of `hex2bin` and `bin2hex` as they run: an `unsigned int` index
that wraps, and characters that may be signed. Up to the lengths at which an
index would wrap, the two functions are inverse to each other on the strings of
hex digits.
-/

namespace EpicMiner.Data

open EpicMiner.Library

/-! ## Characters -/

/-- A `char` as the comparisons of `hf_hex2bin` see it. -/
def charValue (signed : Bool) (c : UInt8) : Int :=
  if signed = true ∧ 128 ≤ c then (c.toNat : Int) - 256 else c.toNat

/-- `hf_hex2bin`, with the conversion of its result to `unsigned char`. -/
def hfHex2binChar (signed : Bool) (c : UInt8) (err : Bool) : UInt8 × Bool :=
  let value := charValue signed c
  if 48 ≤ value ∧ value ≤ 57 then ((value - 48).toNat.toUInt8, err)
  else if 97 ≤ value ∧ value ≤ 102 then ((value - 97 + 10).toNat.toUInt8, err)
  else if 65 ≤ value ∧ value ≤ 70 then ((value - 65 + 10).toNat.toUInt8, err)
  else (0, true)

/-- The sign of a character plays no part. -/
theorem hfHex2binChar_eq (signed : Bool) (c : UInt8) (err : Bool) :
    hfHex2binChar signed c err = hfHex2bin c err := by
  have all : ∀ signed err, hfHex2binChar signed c err = hfHex2bin c err :=
    of_forall_lt (by decide +kernel) c c.toNat_lt
  exact all signed err

/-! ## Loops -/

/-- The loop of `hex2bin` from `i` on, `none` when it is not at its end after the given
rounds. The character behind the text is its terminator. -/
def hex2binLoop {size : Nat} (signed : Bool) (input : Bytes) (len : Nat) :
    Nat → Nat → Buffer size → Option (Bool × Buffer size)
  | 0, _, _ => none
  | rounds + 1, i, out =>
      if i < len then
        let (high, highError) := hfHex2binChar signed (input.getD i 0) false
        let (low, error) := hfHex2binChar signed (input.getD (i + 1) 0) highError
        let stored := out.write (i / 2) [high <<< 4 ||| low]
        if error then some (false, stored)
        else hex2binLoop signed input len rounds ((i + 2) % 4294967296) stored
      else some (true, out)

/-- `hex2bin(in, len, out)`; for the largest `unsigned int` the index wraps and the loop
does not end. -/
def hex2binRun {size : Nat} (signed : Bool) (input : Bytes) (len : Nat) (out : Buffer size) :
    Option (Bool × Buffer size) :=
  hex2binLoop signed input len (len + 1) 0 out

def bin2hexLoop {size : Nat} (input : Bytes) (len : Nat) :
    Nat → Nat → Buffer size → Option (Buffer size)
  | 0, _, _ => none
  | rounds + 1, i, out =>
      if i < len then
        let byte := input.getD i 0
        let high := out.write (i * 2 % 4294967296) [hfBin2hex ((byte &&& 0xF0) >>> 4)]
        let low := high.write ((i * 2 + 1) % 4294967296) [hfBin2hex (byte &&& 0x0F)]
        bin2hexLoop input len rounds ((i + 1) % 4294967296) low
      else some (out.write (len * 2 % 4294967296) [0])

/-- `bin2hex(in, len, out)`. -/
def bin2hexRun {size : Nat} (input : Bytes) (len : Nat) (out : Buffer size) :
    Option (Buffer size) :=
  bin2hexLoop input len (len + 1) 0 out

/-! ## What the loops compute -/

/-- Each round takes two characters; no index wraps before the end. -/
theorem hex2binLoop_eq {size : Nat} (signed : Bool) (input : Bytes)
    (even : input.length % 2 = 0) (small : input.length < 4294967296) (rounds : Nat)
    (rest : Bytes) (index : Nat) (out : Buffer size) (left : input.drop (2 * index) = rest)
    (within : 2 * index ≤ input.length) (enough : rest.length / 2 < rounds) :
    hex2binLoop signed input input.length rounds (2 * index) out =
      some (hex2binFrom rest index out) := by
  induction rounds generalizing rest index out with
  | zero => omega
  | succ rounds inductionHypothesis =>
      have length : rest.length = input.length - 2 * index := by rw [← left, List.length_drop]
      match rest, left, length with
      | [], _, length =>
          rw [hex2binLoop, if_neg (by simp at length; omega)]
          rfl
      | [_], _, length =>
          rw [List.length_singleton] at length
          omega
      | high :: low :: rest, left, length =>
          simp only [List.length_cons] at length enough
          have isHigh : input.getD (2 * index) 0 = high := by
            have first := congrArg (fun bytes => bytes.getD 0 0) left
            simpa [List.getD_eq_getElem?_getD, List.getElem?_drop] using first
          have isLow : input.getD (2 * index + 1) 0 = low := by
            have second := congrArg (fun bytes => bytes.getD 1 0) left
            simpa [List.getD_eq_getElem?_getD, List.getElem?_drop] using second
          have behind : input.drop (2 * (index + 1)) = rest := by
            have dropped := congrArg (List.drop 2) left
            rwa [List.drop_drop] at dropped
          have next : (2 * index + 2) % 4294967296 = 2 * (index + 1) := by omega
          rw [hex2binLoop, if_pos (by omega), isHigh, isLow, next, hex2binFrom,
            Nat.mul_div_cancel_left index (by omega)]
          simp only [hfHex2binChar_eq]
          split
          · rfl
          · exact inductionHypothesis rest (index + 1) _ behind (by omega) (by omega)

theorem hex2binRun_eq {size : Nat} (signed : Bool) {input : Bytes}
    (even : input.length % 2 = 0) (small : input.length < 4294967296) (out : Buffer size) :
    hex2binRun signed input input.length out =
      some (decide (∀ c ∈ input, IsHexDigit c), out.write 0 (hexStored input)) := by
  rw [← hex2binFrom_eq input even]
  exact hex2binLoop_eq signed input even small (input.length + 1) input 0 out rfl (Nat.zero_le _)
    (by omega)

theorem high_nibble (byte : UInt8) : (byte &&& 0xF0) >>> 4 = byte >>> (4 : UInt8) :=
  of_forall_lt (by decide +kernel) byte byte.toNat_lt

/-- Each round writes two digits; no index wraps before the end. -/
theorem bin2hexLoop_eq {size : Nat} (input : Bytes) (small : input.length < 2147483648)
    (rounds : Nat) (rest : Bytes) (index : Nat) (out : Buffer size)
    (left : input.drop index = rest) (within : index ≤ input.length)
    (enough : rest.length < rounds) :
    bin2hexLoop input input.length rounds index out =
      some (out.write (index * 2) (bin2hex rest)) := by
  induction rounds generalizing rest index out with
  | zero => omega
  | succ rounds inductionHypothesis =>
      have length : rest.length = input.length - index := by rw [← left, List.length_drop]
      cases rest with
      | nil =>
          have last : input.length = index := by
            rw [List.length_nil] at length
            omega
          rw [bin2hexLoop, if_neg (by omega), last, Nat.mod_eq_of_lt (by omega)]
          rfl
      | cons byte rest =>
          rw [List.length_cons] at length enough
          have isByte : input.getD index 0 = byte := by
            have first := congrArg (fun bytes => bytes.getD 0 0) left
            simpa [List.getD_eq_getElem?_getD, List.getElem?_drop] using first
          have behind : input.drop (index + 1) = rest := by
            have dropped := congrArg (List.drop 1) left
            rwa [List.drop_drop] at dropped
          have next : (index + 1) * 2 = index * 2 + 1 + 1 := by omega
          rw [bin2hexLoop, if_pos (by omega), isByte, Nat.mod_eq_of_lt (by omega),
            Nat.mod_eq_of_lt (by omega), Nat.mod_eq_of_lt (by omega)]
          dsimp only
          rw [high_nibble, inductionHypothesis rest (index + 1) _ behind (by omega) (by omega), next,
            Buffer.write_cons, Buffer.write_cons, bin2hex_cons]

theorem bin2hexRun_eq {size : Nat} {input : Bytes} (small : input.length < 2147483648)
    (out : Buffer size) :
    bin2hexRun input input.length out = some (out.write 0 (bin2hex input)) :=
  bin2hexLoop_eq input small (input.length + 1) input 0 out rfl (Nat.zero_le _) (by omega)

/-! ## The codec -/

theorem length_bin2hex (bytes : Bytes) : (bin2hex bytes).length = 2 * bytes.length + 1 := by
  induction bytes with
  | nil => rfl
  | cons byte bytes inductionHypothesis =>
      rw [bin2hex_cons, List.length_cons, List.length_cons, inductionHypothesis, List.length_cons]
      omega

/-- The digits that `bin2hex` writes are hex digits, and stand for the byte. -/
theorem digits_of_byte (byte : UInt8) :
    IsHexDigit (hfBin2hex (byte >>> 4)) ∧ IsHexDigit (hfBin2hex (byte &&& 15)) ∧
      digitValue (hfBin2hex (byte >>> 4)) <<< 4 ||| digitValue (hfBin2hex (byte &&& 15)) =
        byte :=
  of_forall_lt (by decide +kernel) byte byte.toNat_lt

/-- The digits of `bytes`, without the NUL behind them. -/
theorem digits_bin2hex (bytes : Bytes) :
    (∀ c ∈ (bin2hex bytes).take (2 * bytes.length), IsHexDigit c) ∧
      hexStored ((bin2hex bytes).take (2 * bytes.length)) = bytes := by
  induction bytes with
  | nil => exact ⟨fun _ member => absurd member (by simp), rfl⟩
  | cons byte bytes inductionHypothesis =>
      obtain ⟨restDigits, restStored⟩ := inductionHypothesis
      obtain ⟨highDigit, lowDigit, value⟩ := digits_of_byte byte
      have double : 2 * (byte :: bytes).length = 2 * bytes.length + 1 + 1 := by
        rw [List.length_cons]
        omega
      rw [double, bin2hex_cons, List.take_succ_cons, List.take_succ_cons]
      constructor
      · simpa using ⟨highDigit, lowDigit, restDigits⟩
      · rw [hexStored, if_pos ⟨highDigit, lowDigit⟩, restStored, value]

section Codec

variable (signed : Bool) {size size' : Nat} (text : Buffer size) (out : Buffer size')

/-- What `bin2hex` writes is read back. -/
theorem hex2binRun_bin2hexRun {bytes : Bytes} (small : bytes.length < 2147483648)
    (room : 2 * bytes.length + 1 ≤ size) (room' : bytes.length ≤ size') :
    ∃ written decoded, bin2hexRun bytes bytes.length text = some written ∧
      hex2binRun signed (written.slice 0 (2 * bytes.length)) (2 * bytes.length) out =
        some (true, decoded) ∧ decoded.slice 0 bytes.length = bytes := by
  obtain ⟨areDigits, stored⟩ := digits_bin2hex bytes
  have length := length_bin2hex bytes
  have whole := text.slice_write_self 0 (bin2hex bytes) (by omega)
  have written : (text.write 0 (bin2hex bytes)).slice 0 (2 * bytes.length) =
      (bin2hex bytes).take (2 * bytes.length) := by
    calc (text.write 0 (bin2hex bytes)).slice 0 (2 * bytes.length)
        = ((text.write 0 (bin2hex bytes)).slice 0 (bin2hex bytes).length).take
            (2 * bytes.length) := by
          simp only [Buffer.slice, List.take_take]
          congr 1
          omega
      _ = (bin2hex bytes).take (2 * bytes.length) := by rw [whole]
  have digitsLength : ((bin2hex bytes).take (2 * bytes.length)).length = 2 * bytes.length := by
    rw [List.length_take]
    omega
  have decodes := hex2binRun_eq signed (by rw [digitsLength]; omega)
    (by rw [digitsLength]; omega) out
  rw [digitsLength, decide_eq_true areDigits, stored] at decodes
  refine ⟨_, out.write 0 bytes, bin2hexRun_eq small text, ?_, ?_⟩
  · rw [written]
    exact decodes
  · exact out.slice_write_self 0 bytes (by omega)

/-- Hex digits are accepted, and nothing else, and written again in lower case. -/
theorem bin2hexRun_hex2binRun {digits : Bytes} (even : digits.length % 2 = 0)
    (small : digits.length < 4294967296) (room : digits.length + 1 ≤ size)
    (room' : digits.length / 2 ≤ size') :
    ∃ good decoded, hex2binRun signed digits digits.length out = some (good, decoded) ∧
      (good = true ↔ ∀ c ∈ digits, IsHexDigit c) ∧
      (good = true → ∃ written, bin2hexRun (decoded.slice 0 (digits.length / 2))
          (digits.length / 2) text = some written ∧
        written.slice 0 (digits.length + 1) = digits.map lowerCase ++ [0]) := by
  refine ⟨_, _, hex2binRun_eq signed even small out, decide_eq_true_iff, fun good => ?_⟩
  have areDigits := of_decide_eq_true good
  have length := length_hexStored areDigits
  have stored : (out.write 0 (hexStored digits)).slice 0 (digits.length / 2) =
      hexStored digits := by
    rw [← length]
    exact out.slice_write_self 0 (hexStored digits) (by omega)
  have encodes := @bin2hexRun_eq _ (hexStored digits) (by omega) text
  rw [length, bin2hex_hexStored even areDigits] at encodes
  rw [stored]
  refine ⟨_, encodes, ?_⟩
  have back := text.slice_write_self 0 (digits.map lowerCase ++ [0]) (by simpa using room)
  simpa using back

/-- What `bin2hex` writes for less than 2^31 bytes, `hex2bin` reads back; and among the texts
of even length `hex2bin` accepts exactly those of hex digits, which `bin2hex` then writes
again in lower case. -/
theorem hex_inverse :
    (∀ bytes : Bytes, bytes.length < 2 ^ 31 → 2 * bytes.length + 1 ≤ size →
      bytes.length ≤ size' → ∃ written decoded, bin2hexRun bytes bytes.length text = some written ∧
        hex2binRun signed (written.slice 0 (2 * bytes.length)) (2 * bytes.length) out =
          some (true, decoded) ∧ decoded.slice 0 bytes.length = bytes) ∧
    ∀ digits : Bytes, digits.length % 2 = 0 → digits.length < 2 ^ 32 → digits.length + 1 ≤ size →
      digits.length / 2 ≤ size' → ∃ good decoded,
        hex2binRun signed digits digits.length out = some (good, decoded) ∧
        (good = true ↔ ∀ c ∈ digits, IsHexDigit c) ∧
        (good = true → ∃ written, bin2hexRun (decoded.slice 0 (digits.length / 2))
            (digits.length / 2) text = some written ∧
          written.slice 0 (digits.length + 1) = digits.map lowerCase ++ [0]) :=
  ⟨fun _ small room room' => hex2binRun_bin2hexRun signed text out small room room',
    fun _ even small room room' => bin2hexRun_hex2binRun signed text out even small room room'⟩

end Codec

/-- Two bytes, with signed characters. -/
theorem hex_inverse_twoBytes : ∃ written decoded,
    bin2hexRun [0xAB, 0xC0] 2 (Buffer.zeros 5) = some written ∧
      hex2binRun true (written.slice 0 4) 4 (Buffer.zeros 2) = some (true, decoded) ∧
      decoded.slice 0 2 = [0xAB, 0xC0] :=
  (hex_inverse true (Buffer.zeros 5) (Buffer.zeros 2)).1 [0xAB, 0xC0] (by decide) (by decide)
    (by decide)

end EpicMiner.Data
