import Etpan.Data.Block
import Etpan.Data.Bytes
import Etpan.Data.Loop

namespace Etpan.DataTypes

open Etpan.Data

/-! mmapstring.c, with strings on the heap: MMAP_UNAVAILABLE is set to 1. -/

/-- `str` is the whole block that is allocated. -/
structure MMAPString where
  str : List UInt8
  len : UInt64
  allocatedLen : UInt64

structure Buffer where
  octets : List UInt8
  bounded : octets.length < 2 ^ 64

namespace MMAPString

def MY_MAXSIZE : UInt64 := 0xffffffffffffffff

/-- The octets of memory that nobody has written; `none` where realloc fails. -/
abbrev Memory := Option (Nat → UInt8)

def powerRound (num n : UInt64) : UInt64 ⊕ UInt64 :=
  if n < num then .inl (n <<< 1) else .inr n

/-- The loop ends within its rounds. -/
def nearestPower (base num : UInt64) : UInt64 :=
  if num > MY_MAXSIZE / 2 then MY_MAXSIZE else (loop (powerRound num) 65 base).getD 0

def mmapStringReallocMemory (string : MMAPString) (memory : Memory) : Option MMAPString :=
  memory.map fun stray => { string with str := realloc string.str stray string.allocatedLen.toNat }

/-- False is NULL. -/
def mmapStringMaybeExpand (string : MMAPString) (len : UInt64) (memory : Memory) : Bool × MMAPString :=
  if len > MY_MAXSIZE - string.len - 1 then (false, string)
  else
    let neededSize := string.len + len + 1
    if string.len + len ≥ string.allocatedLen then
      let oldSize := string.allocatedLen
      let string := { string with allocatedLen := nearestPower 1 neededSize }
      if string.allocatedLen < neededSize then (false, { string with allocatedLen := oldSize })
      else
        match mmapStringReallocMemory string memory with
        | none => (false, { string with allocatedLen := oldSize })
        | some newstring => (true, newstring)
    else (true, string)

def close (string : MMAPString) (len : UInt64) : MMAPString :=
  { string with len := len, str := string.str.set len.toNat 0 }

/-- The header may fail to be allocated, too. -/
def mmapStringSizedNew (dflSize : UInt64) (header : Bool) (memory : Memory) : Option MMAPString :=
  if header then
    let string : MMAPString := { str := [], len := 0, allocatedLen := 0 }
    match mmapStringMaybeExpand string (if dflSize > 2 then dflSize else 2) memory with
    | (false, _) => none
    | (true, string) => some { string with str := string.str.set 0 0 }
  else none

def mmapStringTruncate (string : MMAPString) (len : UInt64) : MMAPString :=
  string.close (if len < string.len then len else string.len)

def mmapStringSetSize (string : MMAPString) (len : UInt64) (memory : Memory) : Bool × MMAPString :=
  if len ≥ string.allocatedLen then
    match mmapStringMaybeExpand string (len - string.len) memory with
    | (false, string) => (false, string)
    | (true, string) => (true, string.close len)
  else (true, string.close len)

def mmapStringInsertLen (string : MMAPString) (pos : UInt64) (val : Buffer) (len : UInt64) (memory : Memory) :
    Bool × MMAPString :=
  if pos > string.len then (false, string)
  else if string.len ≥ MY_MAXSIZE then (false, string)
  else if len > MY_MAXSIZE - string.len - 1 then (false, string)
  else
    match mmapStringMaybeExpand string len memory with
    | (false, string) => (false, string)
    | (true, string) =>
        let str :=
          if pos < string.len then
            memmove string.str (pos + len).toNat pos.toNat (string.len - pos).toNat
          else string.str
        let str := overwrite str pos.toNat (val.octets.take len.toNat)
        (true, { string with str := str }.close (string.len + len))

def strlen (val : Buffer) : UInt64 := UInt64.ofNat (cString val.octets).length

def mmapStringAppend (string : MMAPString) (val : Buffer) (memory : Memory) : Bool × MMAPString :=
  mmapStringInsertLen string string.len val (strlen val) memory

def mmapStringAppendLen (string : MMAPString) (val : Buffer) (len : UInt64) (memory : Memory) : Bool × MMAPString :=
  mmapStringInsertLen string string.len val len memory

def mmapStringPrepend (string : MMAPString) (val : Buffer) (memory : Memory) : Bool × MMAPString :=
  mmapStringInsertLen string 0 val (strlen val) memory

def mmapStringPrependLen (string : MMAPString) (val : Buffer) (len : UInt64) (memory : Memory) : Bool × MMAPString :=
  mmapStringInsertLen string 0 val len memory

def mmapStringInsert (string : MMAPString) (pos : UInt64) (val : Buffer) (memory : Memory) : Bool × MMAPString :=
  mmapStringInsertLen string pos val (strlen val) memory

def mmapStringInsertC (string : MMAPString) (pos : UInt64) (c : UInt8) (memory : Memory) : Bool × MMAPString :=
  if pos > string.len then (false, string)
  else if string.len = MY_MAXSIZE then (false, string)
  else
    match mmapStringMaybeExpand string 1 memory with
    | (false, string) => (false, string)
    | (true, string) =>
        let str :=
          if pos < string.len then
            memmove string.str (pos + 1).toNat pos.toNat (string.len - pos).toNat
          else string.str
        (true, { string with str := str.set pos.toNat c }.close (string.len + 1))

def mmapStringAppendC (string : MMAPString) (c : UInt8) (memory : Memory) : Bool × MMAPString :=
  mmapStringInsertC string string.len c memory

def mmapStringPrependC (string : MMAPString) (c : UInt8) (memory : Memory) : Bool × MMAPString :=
  mmapStringInsertC string 0 c memory

def mmapStringErase (string : MMAPString) (pos len : UInt64) : Bool × MMAPString :=
  if pos > string.len then (false, string)
  else if len > string.len - pos then (false, string)
  else
    let str :=
      if pos + len < string.len then
        memmove string.str pos.toNat (pos + len).toNat (string.len - (pos + len)).toNat
      else string.str
    (true, { string with str := str }.close (string.len - len))

end MMAPString

end Etpan.DataTypes
