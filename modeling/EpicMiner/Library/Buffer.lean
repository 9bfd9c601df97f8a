import Mathlib.Data.List.Basic

/-!
Owns fixed-size byte arrays: writing a run of bytes at an offset, reading a run
back, and little-endian words stored in them. A write never changes the size of
an array, and the part of a write past the end is dropped.
-/

namespace EpicMiner.Library

/-- Replace the elements of `cells` from `offset` on by those of `source`. -/
def writeAt {α : Type} : List α → Nat → List α → List α
  | [], _, _ => []
  | cell :: cells, 0, [] => cell :: cells
  | _ :: cells, 0, byte :: source => byte :: writeAt cells 0 source
  | cell :: cells, offset + 1, source => cell :: writeAt cells offset source

section WriteAt

variable {α : Type}

@[simp] theorem length_writeAt (cells : List α) (offset : Nat) (source : List α) :
    (writeAt cells offset source).length = cells.length := by
  fun_induction writeAt cells offset source with
  | case1 => rfl
  | case2 => rfl
  | case3 _ cells byte source inductionHypothesis => simp [inductionHypothesis]
  | case4 cell cells offset source inductionHypothesis => simp [inductionHypothesis]

theorem writeAt_eq (cells : List α) (offset : Nat) (source : List α)
    (fits : offset + source.length ≤ cells.length) :
    writeAt cells offset source =
      cells.take offset ++ source ++ cells.drop (offset + source.length) := by
  fun_induction writeAt cells offset source with
  | case1 => simp_all
  | case2 => simp
  | case3 _ cells byte source inductionHypothesis =>
      have tailFits : 0 + source.length ≤ cells.length := by simpa using fits
      rw [inductionHypothesis tailFits]
      simp
  | case4 cell cells offset source inductionHypothesis =>
      have tailFits : offset + source.length ≤ cells.length := by
        simp only [List.length_cons] at fits
        omega
      rw [inductionHypothesis tailFits]
      have shift : offset + 1 + source.length = offset + source.length + 1 := by omega
      simp [shift]

/-- A write of the same length at the same place replaces the one before. -/
theorem writeAt_writeAt (cells : List α) (offset : Nat) (first second : List α)
    (same : first.length = second.length) :
    writeAt (writeAt cells offset first) offset second = writeAt cells offset second := by
  fun_induction writeAt cells offset first generalizing second with
  | case1 => rfl
  | case2 => rfl
  | case3 _ cells byte source inductionHypothesis =>
      match second, same with
      | other :: second, same =>
          rw [writeAt, writeAt, inductionHypothesis second (by simpa using same)]
  | case4 cell cells offset source inductionHypothesis =>
      rw [writeAt, writeAt, inductionHypothesis second same]

/-- A byte and the bytes behind it, written one after the other. -/
theorem writeAt_cons (cells : List α) (offset : Nat) (byte : α) (source : List α) :
    writeAt (writeAt cells offset [byte]) (offset + 1) source =
      writeAt cells offset (byte :: source) := by
  induction cells generalizing offset with
  | nil => rfl
  | cons cell cells inductionHypothesis =>
      cases offset with
      | zero => cases cells <;> rfl
      | succ offset => exact congrArg (cell :: ·) (inductionHypothesis offset)

/-- A write that changes nothing has found its bytes in place. -/
theorem writeAt_zero_eq_self_iff (cells source : List α) (fits : source.length ≤ cells.length) :
    writeAt cells 0 source = cells ↔ cells.take source.length = source := by
  rw [writeAt_eq _ _ _ (by simpa using fits)]
  constructor
  · intro same
    have taken := congrArg (List.take source.length) same
    simpa using taken.symm
  · intro same
    rw [List.take_zero, List.nil_append, Nat.zero_add]
    exact (congrArg (· ++ cells.drop source.length) same.symm).trans
      (List.take_append_drop source.length cells)

end WriteAt

structure Buffer (size : Nat) where
  cells : List UInt8
  sized : cells.length = size
deriving DecidableEq

namespace Buffer

variable {size : Nat}

def zeros (size : Nat) : Buffer size :=
  ⟨List.replicate size 0, List.length_replicate⟩

instance : Inhabited (Buffer size) := ⟨zeros size⟩

def write (buffer : Buffer size) (offset : Nat) (source : List UInt8) : Buffer size :=
  ⟨writeAt buffer.cells offset source, by rw [length_writeAt, buffer.sized]⟩

def slice (buffer : Buffer size) (offset length : Nat) : List UInt8 :=
  (buffer.cells.drop offset).take length

@[simp] theorem cells_write (buffer : Buffer size) (offset : Nat) (source : List UInt8) :
    (buffer.write offset source).cells = writeAt buffer.cells offset source := rfl

theorem slice_write_self (buffer : Buffer size) (offset : Nat) (source : List UInt8)
    (fits : offset + source.length ≤ size) :
    (buffer.write offset source).slice offset source.length = source := by
  have sized := buffer.sized
  have start : (buffer.cells.take offset).length = offset := by
    rw [List.length_take]
    omega
  rw [slice, cells_write, writeAt_eq _ _ _ (by omega), List.append_assoc,
    List.drop_append_of_le_length (by omega), List.drop_of_length_le (by omega)]
  simp

theorem write_cons (buffer : Buffer size) (offset : Nat) (byte : UInt8) (source : List UInt8) :
    (buffer.write offset [byte]).write (offset + 1) source =
      buffer.write offset (byte :: source) := by
  unfold write
  congr 1
  exact writeAt_cons buffer.cells offset byte source

theorem write_eq_self_iff (buffer : Buffer size) (source : List UInt8)
    (fits : source.length ≤ size) :
    buffer.write 0 source = buffer ↔ buffer.slice 0 source.length = source := by
  have sized := buffer.sized
  rw [slice, List.drop_zero, ← writeAt_zero_eq_self_iff buffer.cells source (by omega)]
  constructor
  · exact congrArg cells
  · intro same
    cases buffer
    simp only [write] at same ⊢
    congr

theorem length_slice_zero (buffer : Buffer size) {length : Nat} (fits : length ≤ size) :
    (buffer.slice 0 length).length = length := by
  have sized := buffer.sized
  simp [slice]
  omega

/-- A write over the whole buffer. -/
theorem cells_write_whole (buffer : Buffer size) (source : List UInt8)
    (whole : source.length = size) : (buffer.write 0 source).cells = source := by
  have sized := buffer.sized
  rw [cells_write, writeAt_eq _ _ _ (by omega), List.drop_of_length_le (by omega)]
  simp

theorem write_cells (buffer source : Buffer size) : buffer.write 0 source.cells = source := by
  have whole := buffer.cells_write_whole source.cells source.sized
  cases source with
  | mk cells sized => exact (Buffer.mk.injEq ..).mpr whole

theorem slice_eq_drop (buffer : Buffer size) (offset length : Nat) :
    buffer.slice offset (length - offset) = (buffer.slice 0 length).drop offset := by
  simp [slice, List.drop_take]

theorem slice_write_behind (buffer : Buffer size) (offset : Nat) (source : List UInt8)
    (fits : offset + source.length ≤ size) :
    (buffer.write offset source).slice 0 (offset + source.length) =
      buffer.slice 0 offset ++ source := by
  have sized := buffer.sized
  have start : (buffer.cells.take offset).length = offset := by
    rw [List.length_take]
    omega
  have total : (buffer.cells.take offset ++ source).length = offset + source.length := by
    rw [List.length_append, start]
  rw [slice, cells_write, writeAt_eq _ _ _ (by omega), List.drop_zero,
    List.take_append_of_le_length (Nat.le_of_eq total.symm),
    List.take_of_length_le (Nat.le_of_eq total)]
  rfl

end Buffer

/-! ## Little-endian words -/

/-- The four bytes of a word, least significant first. -/
def le32 (word : UInt32) : List UInt8 :=
  [(word.toNat % 256).toUInt8, (word.toNat / 256 % 256).toUInt8,
    (word.toNat / 65536 % 256).toUInt8, (word.toNat / 16777216 % 256).toUInt8]

/-- The word whose four bytes, least significant first, are given. -/
def ofLe32 : List UInt8 → UInt32
  | [first, second, third, fourth] =>
      (first.toNat + 256 * second.toNat + 65536 * third.toNat +
        16777216 * fourth.toNat).toUInt32
  | _ => 0

@[simp] theorem length_le32 (word : UInt32) : (le32 word).length = 4 := rfl

theorem ofLe32_le32 (word : UInt32) : ofLe32 (le32 word) = word := by
  have bound := word.toNat_lt
  apply UInt32.toNat_inj.mp
  simp only [ofLe32, le32, Nat.toUInt8, Nat.toUInt32, UInt8.toNat_ofNat', UInt32.toNat_ofNat']
  omega

theorem le32_ofLe32 (first second third fourth : UInt8) :
    le32 (ofLe32 [first, second, third, fourth]) = [first, second, third, fourth] := by
  have firstBound := first.toNat_lt
  have secondBound := second.toNat_lt
  have thirdBound := third.toNat_lt
  have fourthBound := fourth.toNat_lt
  have value : (ofLe32 [first, second, third, fourth]).toNat = first.toNat + 256 * second.toNat +
      65536 * third.toNat + 16777216 * fourth.toNat := by
    simp only [ofLe32, Nat.toUInt32, UInt32.toNat_ofNat']
    omega
  have digit : ∀ (byte : UInt8) (value : Nat), value = byte.toNat → value.toUInt8 = byte := by
    rintro byte _ rfl
    exact UInt8.ofNat_toNat
  simp only [le32, value]
  rw [digit first _ (by omega), digit second _ (by omega), digit third _ (by omega),
    digit fourth _ (by omega)]

namespace Buffer

variable {size : Nat}

def read32 (buffer : Buffer size) (offset : Nat) : UInt32 :=
  ofLe32 (buffer.slice offset 4)

def write32 (buffer : Buffer size) (offset : Nat) (word : UInt32) : Buffer size :=
  buffer.write offset (le32 word)

theorem write32_write32 (buffer : Buffer size) (offset : Nat) (first second : UInt32) :
    (buffer.write32 offset first).write32 offset second = buffer.write32 offset second := by
  unfold write32 write
  congr 1
  exact writeAt_writeAt buffer.cells offset (le32 first) (le32 second) rfl

theorem read32_write32 (buffer : Buffer size) (offset : Nat) (word : UInt32)
    (fits : offset + 4 ≤ size) : (buffer.write32 offset word).read32 offset = word := by
  have stored := buffer.slice_write_self offset (le32 word) (by simpa using fits)
  rw [length_le32] at stored
  rw [read32, write32, stored, ofLe32_le32]

end Buffer

end EpicMiner.Library
