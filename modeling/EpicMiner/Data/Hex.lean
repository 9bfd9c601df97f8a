import EpicMiner.Data.Bytes

/-!
Owns the laws of the hex codec of `misc.hpp`: what `hex2bin` stores, with and
without a character that is no digit, and that `bin2hex` writes the digits again,
in lower case.
-/

namespace EpicMiner.Data

open EpicMiner.Library

/-! ## Digits -/

def IsHexDigit (c : UInt8) : Prop :=
  48 ≤ c ∧ c ≤ 57 ∨ 97 ≤ c ∧ c ≤ 102 ∨ 65 ≤ c ∧ c ≤ 70

instance (c : UInt8) : Decidable (IsHexDigit c) := by
  unfold IsHexDigit
  infer_instance

/-- Digit by digit, not byte by byte over all bytes. -/
instance (priority := high) (digits : Bytes) : Decidable (∀ c ∈ digits, IsHexDigit c) :=
  List.decidableBAll IsHexDigit digits

def lowerCase (c : UInt8) : UInt8 :=
  if 65 ≤ c ∧ c ≤ 90 then c + 32 else c

/-- The value that `hf_hex2bin` gives to a character, 0 when it is no digit. -/
def digitValue (c : UInt8) : UInt8 :=
  (hfHex2bin c false).1

theorem hfHex2bin_eq (c : UInt8) (err : Bool) :
    hfHex2bin c err = (digitValue c, err || !decide (IsHexDigit c)) := by
  unfold digitValue hfHex2bin
  by_cases decimal : 48 ≤ c ∧ c ≤ 57
  · simp [IsHexDigit, decimal]
  by_cases small : 97 ≤ c ∧ c ≤ 102
  · simp [IsHexDigit, decimal, small]
  by_cases capital : 65 ≤ c ∧ c ≤ 70
  · simp [IsHexDigit, decimal, small, capital]
  · simp [IsHexDigit, decimal, small, capital]

/-- What holds of the numbers below a bound holds of the bytes below it. -/
@[elab_as_elim] theorem of_forall_lt {p : UInt8 → Prop} {bound : Nat}
    (every : ∀ value < bound, p value.toUInt8) (byte : UInt8) (small : byte.toNat < bound) : p byte := by
  have same : byte.toNat.toUInt8 = byte := UInt8.ofNat_toNat
  exact same ▸ every byte.toNat small

theorem digitValue_lt (c : UInt8) : digitValue c < 16 :=
  of_forall_lt (by decide +kernel) c c.toNat_lt

/-- A digit is written again in lower case. -/
theorem hfBin2hex_digitValue {c : UInt8} (digit : IsHexDigit c) :
    hfBin2hex (digitValue c) = lowerCase c := by
  have written : IsHexDigit c → hfBin2hex (digitValue c) = lowerCase c :=
    of_forall_lt (by decide +kernel) c c.toNat_lt
  exact written digit

/-- The two halves of a byte put together from two digits. -/
theorem halves_of_digits {high low : UInt8} (highSmall : high < 16) (lowSmall : low < 16) :
    (high <<< 4 ||| low) >>> 4 = high ∧ (high <<< 4 ||| low) &&& 15 = low := by
  have every : ∀ high : Nat, high < 16 → ∀ low : Nat, low < 16 →
      (high.toUInt8 <<< 4 ||| low.toUInt8) >>> 4 = high.toUInt8 ∧
        (high.toUInt8 <<< 4 ||| low.toUInt8) &&& 15 = low.toUInt8 := by decide +kernel
  have lows : ∀ value < 16, (high <<< 4 ||| Nat.toUInt8 value) >>> 4 = high ∧
      (high <<< 4 ||| Nat.toUInt8 value) &&& 15 = Nat.toUInt8 value :=
    of_forall_lt every high highSmall
  exact of_forall_lt lows low lowSmall

/-! ## Decoding -/

/-- The bytes that `hex2bin` stores: those before the first character that is no
digit, and the one with that character in it. -/
def hexStored : Bytes → Bytes
  | high :: low :: rest =>
      (digitValue high <<< 4 ||| digitValue low) ::
        if IsHexDigit high ∧ IsHexDigit low then hexStored rest else []
  | _ => []

theorem length_hexStored_le : ∀ digits : Bytes, (hexStored digits).length ≤ digits.length / 2
  | [] => Nat.le_refl 0
  | [_] => by simp [hexStored]
  | high :: low :: rest => by
      have shorter := length_hexStored_le rest
      have half : (high :: low :: rest).length / 2 = rest.length / 2 + 1 := by
        simp only [List.length_cons]
        omega
      rw [hexStored, half]
      split
      · simpa using shorter
      · simp

theorem length_hexStored : ∀ {digits : Bytes}, (∀ c ∈ digits, IsHexDigit c) →
    (hexStored digits).length = digits.length / 2
  | [], _ => rfl
  | [_], _ => by simp [hexStored]
  | high :: low :: rest, allDigits => by
      have restDigits : (hexStored rest).length = rest.length / 2 :=
        length_hexStored fun c member => allDigits c (.tail _ (.tail _ member))
      rw [hexStored, if_pos ⟨allDigits high (.head _), allDigits low (.tail _ (.head _))⟩,
        List.length_cons, restDigits]
      simp only [List.length_cons]
      omega

/-- What `hex2bin` does to a buffer, by the characters alone. -/
theorem hex2binFrom_eq {size : Nat} : ∀ (input : Bytes), input.length % 2 = 0 →
    ∀ (index : Nat) (out : Buffer size), hex2binFrom input index out =
      (decide (∀ c ∈ input, IsHexDigit c), out.write index (hexStored input))
  | [], _, index, out => by
      have nothing : ∀ (cells : Bytes) (offset : Nat), writeAt cells offset [] = cells := by
        intro cells
        induction cells with
        | nil => exact fun _ => rfl
        | cons cell cells inductionHypothesis =>
            intro offset
            cases offset with
            | zero => rfl
            | succ offset => exact congrArg (cell :: ·) (inductionHypothesis offset)
      have kept : out.write index [] = out := by
        cases out
        simp only [Buffer.write, nothing]
      simp [hex2binFrom, hexStored, kept]
  | [_], odd, _, _ => by simp at odd
  | high :: low :: rest, even, index, out => by
      have restEven : rest.length % 2 = 0 := by
        simp only [List.length_cons] at even
        omega
      unfold hex2binFrom hexStored
      simp only [hfHex2bin_eq, Bool.false_or]
      by_cases digits : IsHexDigit high ∧ IsHexDigit low
      · rw [hex2binFrom_eq rest restEven, Buffer.write_cons]
        simp [digits]
      · have failed : ((!decide (IsHexDigit high)) || !decide (IsHexDigit low)) = true := by
          simpa [imp_iff_not_or] using digits
        rw [if_pos failed, if_neg digits]
        have notAll : ¬ ∀ c ∈ high :: low :: rest, IsHexDigit c :=
          fun all => digits ⟨all high (.head _), all low (.tail _ (.head _))⟩
        rw [decide_eq_false notAll]

theorem hex2bin_eq {size : Nat} {input : Bytes} {len : Nat} (within : len ≤ input.length)
    (even : len % 2 = 0) (out : Buffer size) :
    hex2bin input len out =
      (decide (∀ c ∈ input.take len, IsHexDigit c), out.write 0 (hexStored (input.take len))) := by
  have length : (input.take len).length = len := by
    rw [List.length_take]
    omega
  exact hex2binFrom_eq (input.take len) (by rw [length]; exact even) 0 out

/-! ## Encoding -/

theorem bin2hex_cons (byte : UInt8) (bytes : Bytes) :
    bin2hex (byte :: bytes) =
      hfBin2hex (byte >>> (4 : UInt8)) :: hfBin2hex (byte &&& 15) :: bin2hex bytes := rfl

/-- What was decoded from digits is encoded in the same digits, in lower case. -/
theorem bin2hex_hexStored : ∀ {digits : Bytes}, digits.length % 2 = 0 →
    (∀ c ∈ digits, IsHexDigit c) → bin2hex (hexStored digits) = digits.map lowerCase ++ [0]
  | [], _, _ => rfl
  | [_], odd, _ => by simp at odd
  | high :: low :: rest, even, allDigits => by
      have restEven : rest.length % 2 = 0 := by
        simp only [List.length_cons] at even
        omega
      have restWritten := bin2hex_hexStored restEven
        fun c member => allDigits c (.tail _ (.tail _ member))
      have highDigit := allDigits high (.head _)
      have lowDigit := allDigits low (.tail _ (.head _))
      obtain ⟨highHalf, lowHalf⟩ := halves_of_digits (digitValue_lt high) (digitValue_lt low)
      rw [hexStored, if_pos ⟨highDigit, lowDigit⟩, bin2hex_cons, restWritten, highHalf, lowHalf,
        hfBin2hex_digitValue highDigit, hfBin2hex_digitValue lowDigit]
      rfl

end EpicMiner.Data
