import Etpan.Data.Chain

namespace Etpan.DataTypes

open Etpan.Data

/-! clist.c: doubly linked lists.

A cell is known by its address; `none` is NULL.  The lists are those of a program, all of them
made by clist_new. -/

structure Clistcell (α : Type) where
  data : α
  previous : Option Nat
  next : Option Nat

structure Clist where
  first : Option Nat
  last : Option Nat
  count : Int32

def clistNew : Clist := { first := none, last := none, count := 0 }

structure Lists (ι α : Type) where
  cell : Nat → Option (Clistcell α)
  list : ι → Clist

namespace Lists

variable {ι α : Type} [DecidableEq ι]

def new : Lists ι α := { cell := fun _ => none, list := fun _ => clistNew }

def modify (s : Lists ι α) (pointer : Option Nat) (change : Clistcell α → Clistcell α) : Lists ι α :=
  match pointer with
  | none => s
  | some cell => { s with cell := Function.update s.cell cell ((s.cell cell).map change) }

def setPrevious (s : Lists ι α) (pointer target : Option Nat) : Lists ι α := s.modify pointer ({ · with previous := target })
def setNext (s : Lists ι α) (pointer target : Option Nat) : Lists ι α := s.modify pointer ({ · with next := target })

def previous (s : Lists ι α) (cell : Nat) : Option Nat := (s.cell cell).bind Clistcell.previous
def next (s : Lists ι α) (cell : Nat) : Option Nat := (s.cell cell).bind Clistcell.next

/-- The links of a new cell are yet to be set. -/
def place (s : Lists ι α) (cell : Nat) (data : α) : Lists ι α :=
  { s with cell := Function.update s.cell cell (some ⟨data, none, none⟩) }

def free (s : Lists ι α) (cell : Nat) : Lists ι α := { s with cell := Function.update s.cell cell none }

def setList (s : Lists ι α) (lst : ι) (header : Clist) : Lists ι α := { s with list := Function.update s.list lst header }
def setFirst (s : Lists ι α) (lst : ι) (first : Option Nat) : Lists ι α := s.setList lst { s.list lst with first := first }
def setLast (s : Lists ι α) (lst : ι) (last : Option Nat) : Lists ι α := s.setList lst { s.list lst with last := last }
def setCount (s : Lists ι α) (lst : ι) (count : Int32) : Lists ι α := s.setList lst { s.list lst with count := count }

end Lists

open Lists

variable {ι α : Type} [DecidableEq ι]

def clistIsempty (lst : Clist) : Bool := lst.first == lst.last && lst.last == none

/-- The two insertions differ in how they link a cell beside an iterator.  `malloc` is the address of the new cell;
false is -1. -/
def clistInsert (link : Lists ι α → ι → Nat → Nat → Lists ι α) (s : Lists ι α) (lst : ι) (iter : Option Nat) (data : α)
    (malloc : Option Nat) : Bool × Lists ι α :=
  match malloc with
  | none => (false, s)
  | some c =>
      let s := (s.place c data).setCount lst ((s.list lst).count + 1)
      if clistIsempty (s.list lst) then
        let s := (s.setNext (some c) none).setPrevious (some c) none
        (true, (s.setLast lst (some c)).setFirst lst (some c))
      else
        match iter with
        | none =>
            let s := s.setPrevious (some c) (s.list lst).last
            let s := s.setNext (s.previous c) (some c)
            let s := s.setNext (some c) none
            (true, s.setLast lst (some c))
        | some iter => (true, link s lst iter c)

def linkBefore (s : Lists ι α) (lst : ι) (iter c : Nat) : Lists ι α :=
  let s := s.setPrevious (some c) (s.previous iter)
  let s := s.setNext (some c) (some iter)
  let s := s.setPrevious (s.next c) (some c)
  match s.previous c with
  | some previous => s.setNext (some previous) (some c)
  | none => s.setFirst lst (some c)

def linkAfter (s : Lists ι α) (lst : ι) (iter c : Nat) : Lists ι α :=
  let s := s.setPrevious (some c) (some iter)
  let s := s.setNext (some c) (s.next iter)
  let s :=
    match s.next c with
    | some next => s.setPrevious (some next) (some c)
    | none => s.setLast lst (some c)
  s.setNext (s.previous c) (some c)

def clistInsertBefore (s : Lists ι α) (lst : ι) (iter : Option Nat) (data : α) (malloc : Option Nat) : Bool × Lists ι α :=
  clistInsert linkBefore s lst iter data malloc

def clistInsertAfter (s : Lists ι α) (lst : ι) (iter : Option Nat) (data : α) (malloc : Option Nat) : Bool × Lists ι α :=
  clistInsert linkAfter s lst iter data malloc

def clistPrepend (s : Lists ι α) (lst : ι) (data : α) (malloc : Option Nat) : Bool × Lists ι α :=
  clistInsertBefore s lst (s.list lst).first data malloc

def clistAppend (s : Lists ι α) (lst : ι) (data : α) (malloc : Option Nat) : Bool × Lists ι α :=
  clistInsertAfter s lst (s.list lst).last data malloc

def clistDelete (s : Lists ι α) (lst : ι) (iter : Option Nat) : Option Nat × Lists ι α :=
  match iter with
  | none => (none, s)
  | some iter =>
      let s :=
        match s.previous iter with
        | some previous => s.setNext (some previous) (s.next iter)
        | none => s.setFirst lst (s.next iter)
      let (ret, s) :=
        match s.next iter with
        | some next => (s.next iter, s.setPrevious (some next) (s.previous iter))
        | none => (none, s.setLast lst (s.previous iter))
      let s := s.free iter
      (ret, s.setCount lst ((s.list lst).count - 1))

def clistConcat (s : Lists ι α) (dest src : ι) : Lists ι α :=
  let s :=
    match (s.list src).first, (s.list dest).last with
    | none, _ => s
    | some _, none =>
        let s := s.setFirst dest (s.list src).first
        s.setLast dest (s.list src).last
    | some first, some last =>
        let s := s.setNext (some last) (some first)
        let s := s.setPrevious (s.list src).first (s.list dest).last
        s.setLast dest (s.list src).last
  let s := s.setCount dest ((s.list dest).count + (s.list src).count)
  (s.setFirst src none).setLast src none

end Etpan.DataTypes
