import Mathlib.Data.List.TakeWhile
import EpicMiner.Library.Buffer

/-!
Owns the byte-level helpers of `misc.hpp` and `vector32.hpp`: C strings, the
hex codec and the 63-bit identifier of a 32-byte vector.
-/

namespace EpicMiner.Data

open EpicMiner.Library

abbrev Bytes := List UInt8

/-- The bytes of a literal of the source. -/
def ascii (text : String) : Bytes :=
  text.toList.map fun char => char.toNat.toUInt8

/-- What a `const char*` denotes: the bytes before the first NUL. -/
def cString (bytes : Bytes) : Bytes :=
  bytes.takeWhile fun byte => byte != 0

theorem cString_of_not_mem {bytes : Bytes} (plain : 0 ∉ bytes) : cString bytes = bytes := by
  unfold cString
  rw [List.takeWhile_eq_self_iff]
  intro byte member
  rw [bne_iff_ne]
  rintro rfl
  exact plain member

theorem cString_eq_self_iff {bytes : Bytes} : cString bytes = bytes ↔ 0 ∉ bytes := by
  refine ⟨fun same member => ?_, cString_of_not_mem⟩
  have plain := List.takeWhile_eq_self_iff.mp same 0 member
  simp at plain

theorem zero_not_mem_cString (bytes : Bytes) : 0 ∉ cString bytes := by
  intro member
  simpa using List.mem_takeWhile_imp member

theorem take_cString (bytes : Bytes) (count : Nat) :
    (cString bytes).take count = cString (bytes.take count) := by
  unfold cString
  induction bytes generalizing count with
  | nil => simp
  | cons byte bytes inductionHypothesis =>
      cases count with
      | zero => rfl
      | succ count =>
          rw [List.take_succ_cons, List.takeWhile_cons, List.takeWhile_cons]
          split
          · rw [List.take_succ_cons, inductionHypothesis]
          · rfl

/-- The NUL behind a text ends the C string. -/
theorem cString_append_nul (text beyond : Bytes) : cString (text ++ 0 :: beyond) = cString text := by
  unfold cString
  induction text with
  | nil => rfl
  | cons byte text inductionHypothesis =>
      rw [List.cons_append, List.takeWhile_cons, List.takeWhile_cons, inductionHypothesis]

/-! ## Memory around a buffer -/

/-- The byte at a position counted from the start of a buffer that begins with `stored`.
Everywhere else the memory holds what it holds. -/
def byteAt (memory : Int → UInt8) (stored : Bytes) (position : Int) : UInt8 :=
  if position < 0 then memory position else stored.getD position.toNat (memory position)

/-- `count` bytes from a position on, in the buffer or not. -/
def readFrom (memory : Int → UInt8) (stored : Bytes) (position : Int) (count : Nat) : Bytes :=
  (List.range count).map fun (k : Nat) => byteAt memory stored (position + k)

@[simp] theorem length_readFrom (memory : Int → UInt8) (stored : Bytes) (position : Int)
    (count : Nat) : (readFrom memory stored position count).length = count := by
  simp [readFrom]

theorem byteAt_stored (memory : Int → UInt8) {stored : Bytes} {index : Nat}
    (inside : index < stored.length) : byteAt memory stored index = stored[index] := by
  rw [byteAt, if_neg (by omega), Int.toNat_natCast, List.getD, List.getElem?_eq_getElem inside, Option.getD_some]

theorem readFrom_inside (memory : Int → UInt8) {stored : Bytes} {start count : Nat}
    (inside : start + count ≤ stored.length) :
    readFrom memory stored start count = (stored.drop start).take count := by
  apply List.ext_getElem
  · rw [length_readFrom, List.length_take, List.length_drop]
    omega
  · intro index _ within
    have stays : start + index < stored.length := by
      rw [List.length_take, List.length_drop] at within
      omega
    have position : (start : Int) + (index : Int) = ((start + index : Nat) : Int) := by omega
    simp only [readFrom, List.getElem_map, List.getElem_range, List.getElem_take,
      List.getElem_drop, position, byteAt_stored memory stays]

theorem mem_readFrom (memory : Int → UInt8) {stored : Bytes} {count : Nat} {byte : UInt8}
    (member : byte ∈ stored.take count) : byte ∈ readFrom memory stored 0 count := by
  obtain ⟨index, within, rfl⟩ := List.mem_iff_getElem.mp member
  rw [List.length_take] at within
  have inside : index < stored.length := by omega
  refine List.mem_map.mpr ⟨index, List.mem_range.mpr (by omega), ?_⟩
  rw [Int.zero_add, byteAt_stored memory inside, List.getElem_take]

/-- `strcmp(left, right) == 0`. -/
def strcmpEqual (left right : Bytes) : Bool :=
  cString left == cString right

/-! ## Hex codec -/

/-- `hf_hex2bin`: the value of a hex digit, and the error flag passed through. -/
def hfHex2bin (c : UInt8) (err : Bool) : UInt8 × Bool :=
  if 48 ≤ c ∧ c ≤ 57 then (c - 48, err)
  else if 97 ≤ c ∧ c ≤ 102 then (c - 97 + 10, err)
  else if 65 ≤ c ∧ c ≤ 70 then (c - 65 + 10, err)
  else (0, true)

/-- The loop of `hex2bin` from output byte `index` on. A byte is stored before
the error flag is looked at, so a failed decoding leaves its prefix behind. -/
def hex2binFrom {size : Nat} : Bytes → Nat → Buffer size → Bool × Buffer size
  | [], _, out => (true, out)
  -- An odd length reads the terminating NUL as the low digit; no caller does so.
  | [digit], index, out =>
      (false, out.write index [(hfHex2bin digit false).1 <<< 4])
  | high :: low :: rest, index, out =>
      let (highValue, highError) := hfHex2bin high false
      let (lowValue, error) := hfHex2bin low highError
      let stored := out.write index [highValue <<< 4 ||| lowValue]
      if error then (false, stored) else hex2binFrom rest (index + 1) stored

/-- `hex2bin(in, len, out)`. -/
def hex2bin {size : Nat} (input : Bytes) (len : Nat) (out : Buffer size) :
    Bool × Buffer size :=
  hex2binFrom (input.take len) 0 out

def hfBin2hex (c : UInt8) : UInt8 :=
  if c ≤ 9 then 48 + c else 97 - 10 + c

/-- `bin2hex`: two digits for each byte and a terminating NUL. -/
def bin2hex (input : Bytes) : Bytes :=
  let digits : Bytes := input.flatMap fun byte : UInt8 =>
    [hfBin2hex (byte >>> (4 : UInt8)), hfBin2hex (byte &&& 15)]
  digits ++ [0]

/-! ## Vectors of 32 bytes -/

abbrev V32 := Buffer 32

/-- The first eight bytes as a little-endian word. -/
def V32.head64 (vector : V32) : UInt64 :=
  (vector.read32 0).toUInt64 ||| (vector.read32 4).toUInt64 <<< 32

/-- `v32::get_id`: 63 bits, so that the all-ones word is never an identifier. -/
def V32.getId (vector : V32) : UInt64 :=
  vector.head64 &&& 0x7fffffffffffffff

theorem V32.getId_ne_allOnes (vector : V32) : vector.getId ≠ 0xffffffffffffffff := by
  intro allOnes
  have value : vector.getId.toNat = vector.head64.toNat &&& 0x7fffffffffffffff := by
    simp [V32.getId]
  have bound : (vector.head64.toNat &&& 0x7fffffffffffffff) ≤ 0x7fffffffffffffff :=
    Nat.and_le_right
  rw [allOnes] at value
  exact absurd bound (by rw [← value]; decide)

end EpicMiner.Data
