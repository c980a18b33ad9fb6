import Mathlib

namespace Etpan.Data

/-! Blocks of memory as lists of their cells. -/

variable {α : Type}

/-- The cells from an offset on are replaced by those given, as memcpy does. -/
def overwrite (memory : List α) (offset : Nat) (cells : List α) : List α :=
  memory.take offset ++ cells ++ memory.drop (offset + cells.length)

/-- The cells may overlap. -/
def memmove (memory : List α) (target source count : Nat) : List α :=
  overwrite memory target ((memory.drop source).take count)

/-- The cells that are new hold anything. -/
def realloc (memory : List α) (stray : Nat → α) (size : Nat) : List α :=
  memory.take size ++ (List.range' memory.length (size - memory.length)).map stray

theorem overwrite_length {memory cells : List α} {offset : Nat} (within : offset + cells.length ≤ memory.length) :
    (overwrite memory offset cells).length = memory.length := by
  simp only [overwrite, List.length_append, List.length_take, List.length_drop]
  omega

theorem overwrite_take {memory cells : List α} {offset : Nat} (within : offset ≤ memory.length) :
    (overwrite memory offset cells).take (offset + cells.length) = memory.take offset ++ cells := by
  have first : (memory.take offset).length = offset := by simp [within]
  rw [overwrite]
  apply List.take_left'
  rw [List.length_append, first]

theorem overwrite_memmove_take {memory cells : List α} {offset count : Nat}
    (within : offset + cells.length + count ≤ memory.length) :
    (overwrite (memmove memory (offset + cells.length) offset count) offset cells).take (offset + cells.length + count) =
      memory.take offset ++ cells ++ (memory.drop offset).take count := by
  have block : ((memory.drop offset).take count).length = count := by
    rw [List.length_take, List.length_drop]
    omega
  have front : (memory.take (offset + cells.length)).length = offset + cells.length := by
    rw [List.length_take]
    omega
  have kept : (memmove memory (offset + cells.length) offset count).take offset = memory.take offset := by
    rw [memmove, overwrite, List.append_assoc, List.take_append_of_le_length (by omega), List.take_take,
      Nat.min_eq_left (Nat.le_add_right _ _)]
  have moved : (memmove memory (offset + cells.length) offset count).drop (offset + cells.length) =
      (memory.drop offset).take count ++ memory.drop (offset + cells.length + count) := by
    rw [memmove, overwrite, List.append_assoc, List.drop_left' front, block]
  have total : (memory.take offset ++ cells ++ (memory.drop offset).take count).length = offset + cells.length + count := by
    simp only [List.length_append, block, List.length_take]
    omega
  rw [overwrite, kept, moved, ← List.append_assoc, List.take_left' total]

theorem overwrite_singleton {memory : List α} {offset : Nat} (inside : offset < memory.length) (cell : α) :
    overwrite memory offset [cell] = memory.set offset cell := by
  rw [overwrite, List.set_eq_take_append_cons_drop, if_pos inside, List.append_assoc]
  rfl

theorem memmove_length {memory : List α} {target source count : Nat} (within : target + count ≤ memory.length) :
    (memmove memory target source count).length = memory.length := by
  refine overwrite_length ?_
  rw [List.length_take]
  omega

theorem memmove_nothing (memory : List α) (target source : Nat) : memmove memory target source 0 = memory := by
  rw [memmove, overwrite, List.take_zero, List.append_nil, List.length_nil, Nat.add_zero, List.take_append_drop]

theorem realloc_length (memory : List α) (stray : Nat → α) (size : Nat) : (realloc memory stray size).length = size := by
  simp only [realloc, List.length_append, List.length_take, List.length_map, List.length_range']
  omega

theorem realloc_take {memory : List α} {stray : Nat → α} {size count : Nat} (kept : count ≤ memory.length)
    (within : count ≤ size) : (realloc memory stray size).take count = memory.take count := by
  rw [realloc, List.take_append_of_le_length (by simp; omega), List.take_take, Nat.min_eq_left within]

end Etpan.Data
