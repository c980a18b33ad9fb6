import Etpan.Data.Tabulate

namespace Etpan.DataTypes

open Etpan.Data

/-! chash.c: a hash table that copies its keys and values.  Allocation succeeds. -/

/-- The length of a datum is an unsigned int. -/
structure Chashdatum where
  data : List UInt8
  bounded : data.length < 2 ^ 32
deriving DecidableEq

def Chashdatum.len (datum : Chashdatum) : UInt32 := UInt32.ofNat datum.data.length

structure Chashcell where
  func : UInt32
  key : Chashdatum
  value : Chashdatum

/-- The cells of a bucket are in the order of their `next` links. -/
structure Chash where
  size : UInt32
  count : UInt32
  cells : List (List Chashcell)

namespace Chash

def CHASH_DEFAULTSIZE : UInt32 := 13
def CHASH_MAXDEPTH : UInt32 := 3

/-- A `char` is signed. -/
def chashFunc (key : List UInt8) : UInt32 :=
  key.foldl (fun c k => ((c <<< 5) + c) + k.toInt8.toInt32.toUInt32) 5381

def chashNew (size : UInt32) : Chash :=
  let size := if size < CHASH_DEFAULTSIZE then CHASH_DEFAULTSIZE else size
  { size := size, count := 0, cells := List.replicate size.toNat [] }

def bucket (hash : Chash) (indx : Nat) : List Chashcell := hash.cells.getD indx []

def isKey (func : UInt32) (key : Chashdatum) (cell : Chashcell) : Bool :=
  cell.key.len == key.len && cell.func == func && cell.key.data == key.data

def chashGet (hash : Chash) (key : Chashdatum) : Option Chashdatum :=
  let func := chashFunc key.data
  ((hash.bucket (func % hash.size).toNat).find? (isKey func key)).map Chashcell.value

def rehash (size : UInt32) (cells : List (List Chashcell)) (cell : Chashcell) : List (List Chashcell) :=
  let nindx := (cell.func % size).toNat
  cells.set nindx (cell :: cells.getD nindx [])

def chashResize (hash : Chash) (size : UInt32) : Chash :=
  if hash.size = size then hash
  else
    let cells := hash.cells.foldl (fun cells chain => chain.foldl (rehash size) cells) (List.replicate size.toNat [])
    { hash with size := size, cells := cells }

/-- The loop of chash_set: the first cell of the key gets the value; `none` where there is no such cell. -/
def replaceValue (func : UInt32) (key value : Chashdatum) (chain : List Chashcell) : Option (List Chashcell) :=
  changeFirst (isKey func key) (fun cell => [{ cell with value := value }]) chain

/-- What `oldvalue` is set to, and the table: where the key is found, it is the new value. -/
def chashSet (hash : Chash) (key value : Chashdatum) : Option Chashdatum × Chash :=
  let hash :=
    if hash.count > hash.size * CHASH_MAXDEPTH then chashResize hash (hash.count / CHASH_MAXDEPTH * 2 + 1) else hash
  let func := chashFunc key.data
  let indx := (func % hash.size).toNat
  match replaceValue func key value (hash.bucket indx) with
  | some chain => (some value, { hash with cells := hash.cells.set indx chain })
  | none =>
      let cell : Chashcell := { func := func, key := key, value := value }
      (none, { hash with cells := hash.cells.set indx (cell :: hash.bucket indx), count := hash.count + 1 })

/-- The loop of chash_delete: the first cell of the key is unlinked. -/
def unlinkKey (func : UInt32) (key : Chashdatum) (chain : List Chashcell) : Option (List Chashcell) :=
  changeFirst (isKey func key) (fun _ => []) chain

/-- False is -1. -/
def chashDelete (hash : Chash) (key : Chashdatum) : Bool × Chash :=
  let func := chashFunc key.data
  let indx := (func % hash.size).toNat
  match unlinkKey func key (hash.bucket indx) with
  | some chain => (true, { hash with cells := hash.cells.set indx chain, count := hash.count - 1 })
  | none => (false, hash)

def chashClear (hash : Chash) : Chash :=
  { hash with cells := List.replicate hash.size.toNat [], count := 0 }

/-- A cell and those behind it in its bucket; NULL has none. -/
abbrev Chashiter := List Chashcell

def firstCell : List (List Chashcell) → Chashiter
  | [] => []
  | [] :: rest => firstCell rest
  | (cell :: next) :: _ => cell :: next

def chashBegin (hash : Chash) : Chashiter := firstCell hash.cells

def chashNext (hash : Chash) : Chashiter → Chashiter
  | [] => []
  | cell :: [] => firstCell (hash.cells.drop ((cell.func % hash.size).toNat + 1))
  | _ :: next => next

/-- The cells of `for (iter = chash_begin(hash) ; iter != NULL ; iter = chash_next(hash, iter))`; `none` where the
rounds do not suffice. -/
def visits (hash : Chash) : Nat → Chashiter → Option (List Chashcell)
  | _, [] => some []
  | 0, _ => none
  | rounds + 1, cell :: next => (visits hash rounds (chashNext hash (cell :: next))).map (cell :: ·)

end Chash

end Etpan.DataTypes
