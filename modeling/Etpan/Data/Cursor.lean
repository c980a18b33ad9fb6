import Etpan.Data.Block

namespace Etpan.Data

/-! A pointer that writes its way through a block of memory, with all that it stores. -/

variable {α : Type}

structure Cursor (α : Type) where
  offset : Nat
  stores : List (Nat × List α)

namespace Cursor

def start : Cursor α := ⟨0, []⟩

/-- As memcpy, with the pointer behind the cells. -/
def put (cursor : Cursor α) (cells : List α) : Cursor α :=
  ⟨cursor.offset + cells.length, cursor.stores ++ [(cursor.offset, cells)]⟩

/-- As snprintf in a room of some cells, the last of them for the terminator; the pointer goes on as far as the whole text
would need. -/
def print (cursor : Cursor α) (terminator : α) (room : Nat) (text : List α) : Cursor α :=
  ⟨cursor.offset + text.length, cursor.stores ++ [(cursor.offset, if room = 0 then [] else text.take (room - 1) ++ [terminator])]⟩

def Within (cursor : Cursor α) (bound : Nat) : Prop := ∀ store ∈ cursor.stores, store.1 + store.2.length ≤ bound

def result (cursor : Cursor α) (memory : List α) : List α :=
  cursor.stores.foldl (fun memory store => overwrite memory store.1 store.2) memory

section Rules

variable {cursor : Cursor α} {cells text : List α} {terminator : α} {room bound : Nat} {memory : List α}

@[simp] theorem put_offset : (cursor.put cells).offset = cursor.offset + cells.length := rfl

@[simp] theorem print_offset : (cursor.print terminator room text).offset = cursor.offset + text.length := rfl

theorem within_start : (start : Cursor α).Within bound := fun _ member => absurd member List.not_mem_nil

theorem Within.mono {bound' : Nat} (within : cursor.Within bound) (le : bound ≤ bound') : cursor.Within bound' :=
  fun store member => Nat.le_trans (within store member) le

theorem Within.put (within : cursor.Within bound) (fits : cursor.offset + cells.length ≤ bound) : (cursor.put cells).Within bound := by
  intro store member
  rcases List.mem_append.mp member with earlier | last
  · exact within store earlier
  · obtain rfl := List.mem_singleton.mp last
    exact fits

theorem Within.print (within : cursor.Within bound) (fits : cursor.offset + min (text.length + 1) room ≤ bound) :
    (cursor.print terminator room text).Within bound := by
  intro store member
  rcases List.mem_append.mp member with earlier | last
  · exact within store earlier
  · obtain rfl := List.mem_singleton.mp last
    dsimp only
    split_ifs with none
    · rw [List.length_nil]
      omega
    · rw [List.length_append, List.length_take, List.length_singleton]
      omega

structure Holds (cursor : Cursor α) (memory text : List α) : Prop where
  length : cursor.offset = text.length
  within : text.length ≤ memory.length
  room : (cursor.result memory).length = memory.length
  front : (cursor.result memory).take text.length = text

theorem holds_start (memory : List α) : (start : Cursor α).Holds memory [] := ⟨rfl, Nat.zero_le _, rfl, rfl⟩

theorem Holds.put (holds : cursor.Holds memory text) (fits : text.length + cells.length ≤ memory.length) :
    (cursor.put cells).Holds memory (text ++ cells) := by
  have result_eq : (cursor.put cells).result memory = overwrite (cursor.result memory) cursor.offset cells := by
    rw [result, Cursor.put, List.foldl_append]
    rfl
  have inside : cursor.offset ≤ (cursor.result memory).length := by
    rw [holds.room, holds.length]
    exact holds.within
  refine ⟨?_, ?_, ?_, ?_⟩
  · rw [put_offset, holds.length, List.length_append]
  · rw [List.length_append]
    exact fits
  · rw [result_eq, overwrite_length, holds.room]
    rw [holds.room, holds.length]
    exact fits
  · rw [result_eq, List.length_append, ← holds.length, overwrite_take inside, holds.length, holds.front]

theorem Holds.print (holds : cursor.Holds memory text) {printed : List α} (long : printed.length < room)
    (fits : text.length + printed.length + 1 ≤ memory.length) :
    (cursor.print terminator room printed).Holds memory (text ++ printed) := by
  have whole : printed.take (room - 1) = printed := List.take_of_length_le (by omega)
  have stores : (cursor.print terminator room printed).stores = (cursor.put (printed ++ [terminator])).stores := by
    rw [Cursor.print, if_neg (by omega), whole]
    rfl
  have put : (cursor.put (printed ++ [terminator])).Holds memory (text ++ (printed ++ [terminator])) := by
    refine holds.put ?_
    rw [List.length_append, List.length_singleton]
    omega
  have result_eq : (cursor.print terminator room printed).result memory = (cursor.put (printed ++ [terminator])).result memory := by
    rw [result, stores]
    rfl
  refine ⟨?_, ?_, ?_, ?_⟩
  · rw [print_offset, holds.length, List.length_append]
  · rw [List.length_append]
    omega
  · rw [result_eq, put.room]
  · have front := congrArg (List.take (text ++ printed).length) put.front
    have shorter : (text ++ printed).length ≤ (text ++ (printed ++ [terminator])).length := by simp
    rw [List.take_take, Nat.min_eq_left shorter] at front
    rw [result_eq, front, ← List.append_assoc, List.take_left]

theorem Holds.cut (holds : cursor.Holds memory text) {printed : List α} (full : printed.length = room) (nonempty : printed ≠ [])
    (fits : text.length + printed.length = memory.length) :
    (cursor.print terminator room printed).result memory = text ++ (printed.dropLast ++ [terminator]) := by
  have positive := List.length_pos_iff.mpr nonempty
  have cutOff : printed.take (room - 1) = printed.dropLast := by
    rw [List.dropLast_eq_take, full]
  have stores : (cursor.print terminator room printed).stores = (cursor.put (printed.dropLast ++ [terminator])).stores := by
    rw [Cursor.print, if_neg (by omega), cutOff]
    rfl
  have size : text.length + (printed.dropLast ++ [terminator]).length = memory.length := by
    rw [List.length_append, List.length_dropLast, List.length_singleton]
    omega
  have put := holds.put (Nat.le_of_eq size)
  have result_eq : (cursor.print terminator room printed).result memory = (cursor.put (printed.dropLast ++ [terminator])).result memory := by
    rw [result, stores]
    rfl
  have front := put.front
  have whole : ((cursor.put (printed.dropLast ++ [terminator])).result memory).length ≤ (text ++ (printed.dropLast ++ [terminator])).length := by
    rw [put.room, List.length_append]
    exact Nat.le_of_eq size.symm
  rw [List.take_of_length_le whole] at front
  rw [result_eq, front]

theorem put_nil_result : (cursor.put []).result memory = cursor.result memory := by
  rw [result, put, List.foldl_append, List.foldl_cons, List.foldl_nil, overwrite, List.append_nil, List.length_nil, Nat.add_zero,
    List.take_append_drop]
  rfl

end Rules

end Cursor

end Etpan.Data
