import Etpan.Data.Block
import Etpan.Data.Loop

namespace Etpan.DataTypes

open Etpan.Data

/-! carray.c: an array of pointers that grows.  `none` is NULL. -/

structure Carray (α : Type) where
  array : List (Option α)
  len : UInt32
  max : UInt32

namespace Carray

variable {α : Type}

def MIN_ARRAY_SIZE : UInt32 := 4
def UINT_MAX : UInt32 := 0xffffffff

/-- What an allocation that succeeds leaves in the slots that nobody has written. -/
abbrev Slots (α : Type) := Nat → Option α

/-- `itemSize` is a size_t, of 64 bits. -/
def sizeMulOverflows (count : UInt32) (itemSize : UInt64) : Bool :=
  decide (count.toUInt64 > (0 - 1) / itemSize)

def pointerSize : UInt64 := 8

/-- The two allocations, of the header and of the slots, may each fail. -/
def carrayNew (initsize : UInt32) (header : Bool) (slots : Option (Slots α)) : Option (Carray α) :=
  if header then
    let size := if initsize < MIN_ARRAY_SIZE then MIN_ARRAY_SIZE else initsize
    if sizeMulOverflows size pointerSize then none
    else slots.map fun stray => ⟨realloc [] stray size.toNat, 0, size⟩
  else none

/-- The loop that finds the capacity; it is left with `none` where -1 is returned. -/
def growRound (newSize n : UInt32) : UInt32 ⊕ Option UInt32 :=
  if n ≤ newSize then if n > UINT_MAX / 2 then .inr none else .inl (n * 2) else .inr (some n)

/-- A number of 32 bits doubles less than 33 times. -/
def growLoop (newSize n : UInt32) : Option UInt32 :=
  (loop (growRound newSize) 33 n).join

/-- The part of carray_set_size that makes room. -/
def grow (array : Carray α) (newSize : UInt32) (slots : Option (Slots α)) : Option (Carray α) :=
  if newSize > array.max then
    if array.max > UINT_MAX / 2 then none
    else
      (growLoop newSize (array.max * 2)).bind fun n =>
        if sizeMulOverflows n pointerSize then none
        else slots.map fun stray => { array with array := realloc array.array stray n.toNat, max := n }
  else some array

/-- False is -1. -/
def carraySetSize (array : Carray α) (newSize : UInt32) (slots : Option (Slots α)) : Bool × Carray α :=
  let oldSize := array.len
  match grow array newSize slots with
  | none => (false, array)
  | some grown =>
      let memory :=
        if newSize > oldSize then
          overwrite grown.array oldSize.toNat (List.replicate (newSize - oldSize).toNat none)
        else grown.array
      (true, { grown with array := memory, len := newSize })

/-- The index of the new element, or `none` for -1. -/
def carrayAdd (array : Carray α) (data : Option α) (slots : Option (Slots α)) : Option UInt32 × Carray α :=
  if array.len = UINT_MAX then (none, array)
  else
    match carraySetSize array (array.len + 1) slots with
    | (false, same) => (none, same)
    | (true, sized) => (some (sized.len - 1), { sized with array := sized.array.set (sized.len - 1).toNat data })

def carrayDeleteFast (array : Carray α) (indx : UInt32) : Bool × Carray α :=
  if indx ≥ array.len then (false, array)
  else (true, { array with array := array.array.set indx.toNat none })

def carrayDelete (array : Carray α) (indx : UInt32) : Bool × Carray α :=
  if indx ≥ array.len then (false, array)
  else
    let len := array.len - 1
    let memory := if indx ≠ len then array.array.set indx.toNat (array.array.getD len.toNat none) else array.array
    (true, { array with array := memory, len := len })

def carrayDeleteSlow (array : Carray α) (indx : UInt32) : Bool × Carray α :=
  if indx ≥ array.len then (false, array)
  else
    let len := array.len - 1
    let memory :=
      if indx ≠ len then memmove array.array indx.toNat (indx.toNat + 1) (len - indx).toNat else array.array
    (true, { array with array := memory, len := len })

def carrayGet (array : Carray α) (indx : UInt32) : Option α := array.array.getD indx.toNat none

def carraySet (array : Carray α) (indx : UInt32) (value : Option α) : Carray α :=
  { array with array := array.array.set indx.toNat value }

end Carray

end Etpan.DataTypes
