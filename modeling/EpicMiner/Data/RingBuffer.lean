import Mathlib.Data.Int.ModEq
import Mathlib.Data.List.Induction
import Mathlib.Logic.Function.Basic

/-!
Owns `ring_buffer` of `misc.hpp`, read backwards from the last insertion by an
unsigned subtraction that may wrap, and the 64-bit arithmetic that it and the
hash log use. What a position reads is the insertion that lies so far back, as
long as the capacity divides 2^64.
-/

namespace EpicMiner.Data

/-- The conversion of an exact result to `size_t` or `uint64_t`. -/
def uint64 (value : Int) : Nat :=
  (value % 18446744073709551616).toNat

theorem uint64_eq_emod (value : Int) : (uint64 value : Int) = value % 18446744073709551616 := by
  unfold uint64
  omega

theorem uint64_of_lt {value : Int} (nonneg : 0 ≤ value) (small : value < 18446744073709551616) :
    (uint64 value : Int) = value := by
  unfold uint64
  omega

/-- `ring_buffer<T, N>`. -/
structure RingBuffer (α : Type) (N : Nat) where
  pos : Nat
  data : Fin N → α
  pos_lt : pos < N

namespace RingBuffer

variable {α : Type} {N : Nat}

theorem capacity_pos (ring : RingBuffer α N) : 0 < N :=
  Nat.zero_lt_of_lt ring.pos_lt

def insert (val : α) (ring : RingBuffer α N) : RingBuffer α N where
  pos := uint64 (ring.pos + 1) % N
  data := Function.update ring.data ⟨ring.pos, ring.pos_lt⟩ val
  pos_lt := Nat.mod_lt _ ring.capacity_pos

/-- The place in `data` that `operator[]` computes. -/
def index (ring : RingBuffer α N) (idx : Nat) : Nat :=
  uint64 (ring.pos - idx - 1) % N

theorem index_lt (ring : RingBuffer α N) (idx : Nat) : ring.index idx < N :=
  Nat.mod_lt _ ring.capacity_pos

/-- `operator[]`. -/
def get (ring : RingBuffer α N) (idx : Nat) : α :=
  ring.data ⟨ring.index idx, ring.index_lt idx⟩

/-- The position is kept. -/
def fill (val : α) (ring : RingBuffer α N) : RingBuffer α N :=
  { ring with data := fun _ => val }

/-- Insertions in order, the last value of the list last. -/
def insertAll (ring : RingBuffer α N) (values : List α) : RingBuffer α N :=
  values.foldl (fun ring value => ring.insert value) ring

@[simp] theorem get_fill (ring : RingBuffer α N) (val : α) (idx : Nat) :
    (ring.fill val).get idx = val := rfl

@[simp] theorem insertAll_nil (ring : RingBuffer α N) : ring.insertAll [] = ring := rfl

theorem insertAll_append (ring : RingBuffer α N) (values : List α) (value : α) :
    ring.insertAll (values ++ [value]) = (ring.insertAll values).insert value := by
  simp [insertAll]

section Positions

variable (divides : (N : Int) ∣ 18446744073709551616) (ring : RingBuffer α N)

include divides

theorem uint64_emod (value : Int) : ((uint64 value % N : Nat) : Int) = value % N := by
  rw [Int.natCast_emod, uint64_eq_emod, Int.emod_emod_of_dvd value divides]

/-- The wrap of the subtraction is repaired by the remainder. -/
theorem index_eq (idx : Nat) : (ring.index idx : Int) = ((ring.pos : Int) - idx - 1) % N :=
  uint64_emod divides _

theorem pos_insert (val : α) : ((ring.insert val).pos : Int) = ((ring.pos : Int) + 1) % N :=
  uint64_emod divides _

theorem index_insert_zero (val : α) : (ring.insert val).index 0 = ring.pos := by
  have wrapped : ((ring.insert val).index 0 : Int) = (ring.pos : Int) := by
    rw [index_eq divides, pos_insert divides]
    calc (((ring.pos : Int) + 1) % N - (0 : Nat) - 1) % N
        = (((ring.pos : Int) + 1) % N - 1) % N := by simp
      _ = ((ring.pos : Int) + 1 - 1) % N := by rw [Int.emod_sub_emod]
      _ = (ring.pos : Int) := by
          rw [Int.add_sub_cancel]
          exact Int.emod_eq_of_lt (by omega) (by exact_mod_cast ring.pos_lt)
  exact_mod_cast wrapped

theorem index_insert_succ (val : α) (idx : Nat) :
    (ring.insert val).index (idx + 1) = ring.index idx := by
  have wrapped : ((ring.insert val).index (idx + 1) : Int) = (ring.index idx : Int) := by
    rw [index_eq divides, pos_insert divides, index_eq divides, Int.sub_sub, Int.emod_sub_emod]
    congr 1
    push_cast
    omega
  exact_mod_cast wrapped

/-- The place written last is read again only after a whole round. -/
theorem index_ne_pos {idx : Nat} (within : idx + 1 < N) : ring.index idx ≠ ring.pos := by
  intro same
  have wrapped := index_eq divides ring idx
  rw [same] at wrapped
  have round : (N : Int) ∣ (idx : Int) + 1 := by
    have zero : ((ring.pos : Int) - idx - 1 - ring.pos) % N = 0 := by
      rw [Int.sub_emod, ← wrapped]
      simp
    have divisor := Int.dvd_of_emod_eq_zero zero
    have negated : (ring.pos : Int) - idx - 1 - ring.pos = -((idx : Int) + 1) := by omega
    rw [negated] at divisor
    exact (Int.dvd_neg).mp divisor
  have bound := Int.le_of_dvd (by omega) round
  omega

@[simp] theorem get_insert_zero (val : α) : (ring.insert val).get 0 = val := by
  have place : (⟨(ring.insert val).index 0, index_lt _ 0⟩ : Fin N) = ⟨ring.pos, ring.pos_lt⟩ :=
    Fin.ext (index_insert_zero divides ring val)
  unfold get
  rw [place]
  exact Function.update_self ..

theorem get_insert_succ (val : α) {idx : Nat} (within : idx + 1 < N) :
    (ring.insert val).get (idx + 1) = ring.get idx := by
  have place : (⟨(ring.insert val).index (idx + 1), index_lt _ (idx + 1)⟩ : Fin N) =
      ⟨ring.index idx, ring.index_lt idx⟩ :=
    Fin.ext (index_insert_succ divides ring val idx)
  have other : (⟨ring.index idx, ring.index_lt idx⟩ : Fin N) ≠ ⟨ring.pos, ring.pos_lt⟩ :=
    fun same => index_ne_pos divides ring within (Fin.mk.inj same)
  unfold get
  rw [place]
  exact Function.update_of_ne other ..

end Positions

/-- For every capacity that divides 2^64 and any number of insertions after a fill, position
`i` holds the value inserted `i` insertions before the last one, or the filling where there
were not so many. -/
theorem get_insertAll_fill (divides : N ∣ 2 ^ 64) (ring : RingBuffer α N) (val : α)
    (values : List α) (idx : Nat) (within : idx < N) :
    ((ring.fill val).insertAll values).index idx < N ∧
      ((ring.fill val).insertAll values).get idx = values.reverse[idx]?.getD val := by
  have divides : (N : Int) ∣ 18446744073709551616 := by exact_mod_cast divides
  refine ⟨index_lt _ idx, ?_⟩
  induction values using List.reverseRecOn generalizing idx with
  | nil => simp
  | append_singleton values value inductionHypothesis =>
      rw [insertAll_append, List.reverse_append]
      cases idx with
      | zero => exact get_insert_zero divides _ value
      | succ idx =>
          rw [get_insert_succ divides _ value within, inductionHypothesis idx (by omega)]
          rfl

/-- Six values in a ring of four. -/
theorem get_insertAll_fill_wrapped :
    (((⟨3, fun _ => 9, by decide⟩ : RingBuffer Nat 4).fill 0).insertAll [1, 2, 3, 4, 5, 6]).get 3 =
      3 :=
  (get_insertAll_fill (by decide) ⟨3, fun _ => 9, by decide⟩ 0 [1, 2, 3, 4, 5, 6] 3 (by decide)).2

end RingBuffer

end EpicMiner.Data
