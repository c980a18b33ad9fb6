import Etpan.DataTypes.ChashMap

namespace Etpan.DataTypes

open Etpan.Data

/-! chash.c: a hash table created without CHASH_COPYVALUE, which keeps the values that it is given.

The octets of a key do not change while it is in the table, whether the table copied them or not. -/

/-- A `chashdatum` that is not copied; the address 0 is NULL. -/
structure Chashpointer where
  data : UInt64
  len : UInt32
deriving Repr, DecidableEq

namespace Chashpointer

def null : Chashpointer := { data := 0, len := 0 }

end Chashpointer

structure Pointercell where
  func : UInt32
  key : Chashdatum
  value : Chashpointer

structure Pointerchash where
  size : UInt32
  count : UInt32
  cells : List (List Pointercell)

namespace Pointerchash

open Chash (chashFunc CHASH_DEFAULTSIZE CHASH_MAXDEPTH)

def chashNew (size : UInt32) : Pointerchash :=
  let size := if size < CHASH_DEFAULTSIZE then CHASH_DEFAULTSIZE else size
  { size := size, count := 0, cells := List.replicate size.toNat [] }

def bucket (hash : Pointerchash) (indx : Nat) : List Pointercell := hash.cells.getD indx []

def isKey (func : UInt32) (key : Chashdatum) (cell : Pointercell) : Bool :=
  cell.key.len == key.len && cell.func == func && cell.key.data == key.data

def findCell (hash : Pointerchash) (key : Chashdatum) : Option Pointercell :=
  let func := chashFunc key.data
  (hash.bucket (func % hash.size).toNat).find? (isKey func key)

def chashGet (hash : Pointerchash) (key : Chashdatum) : Option Chashpointer := (hash.findCell key).map Pointercell.value

def rehash (size : UInt32) (cells : List (List Pointercell)) (cell : Pointercell) : List (List Pointercell) :=
  let nindx := (cell.func % size).toNat
  cells.set nindx (cell :: cells.getD nindx [])

def chashResize (hash : Pointerchash) (size : UInt32) : Pointerchash :=
  if hash.size = size then hash
  else
    let cells := hash.cells.foldl (fun cells chain => chain.foldl (rehash size) cells) (List.replicate size.toNat [])
    { hash with size := size, cells := cells }

/-- The first cell of the key gets the value; `none` where there is no such cell. -/
def replaceValue (func : UInt32) (key : Chashdatum) (value : Chashpointer) (chain : List Pointercell) : Option (List Pointercell) :=
  changeFirst (isKey func key) (fun cell => [{ cell with value := value }]) chain

def grown (hash : Pointerchash) : Pointerchash :=
  if hash.count > hash.size * CHASH_MAXDEPTH then chashResize hash (hash.count / CHASH_MAXDEPTH * 2 + 1) else hash

/-- What `oldvalue` is left as, and the table. -/
def chashSet (hash : Pointerchash) (key : Chashdatum) (value : Chashpointer) : Chashpointer × Pointerchash :=
  let hash := hash.grown
  let func := chashFunc key.data
  let indx := (func % hash.size).toNat
  match replaceValue func key value (hash.bucket indx) with
  | some chain =>
      -- `oldvalue` has got the value of the cell here; it is set once more behind the replacement.
      let oldvalue := value
      (oldvalue, { hash with cells := hash.cells.set indx chain })
  | none =>
      let cell : Pointercell := { func := func, key := key, value := value }
      (.null, { hash with cells := hash.cells.set indx (cell :: hash.bucket indx), count := hash.count + 1 })

def unlinkKey (func : UInt32) (key : Chashdatum) (chain : List Pointercell) : Option (List Pointercell) :=
  changeFirst (isKey func key) (fun _ => []) chain

/-- What `oldvalue` is set to, or `none` for -1, and the table. -/
def chashDelete (hash : Pointerchash) (key : Chashdatum) : Option Chashpointer × Pointerchash :=
  let func := chashFunc key.data
  let indx := (func % hash.size).toNat
  match unlinkKey func key (hash.bucket indx) with
  | some chain => (hash.chashGet key, { hash with cells := hash.cells.set indx chain, count := hash.count - 1 })
  | none => (none, hash)

def chashClear (hash : Pointerchash) : Pointerchash :=
  { hash with cells := List.replicate hash.size.toNat [], count := 0 }

/-! ### The same table with copied values -/

def copyCell (octets : Chashpointer → Chashdatum) (cell : Pointercell) : Chashcell :=
  { func := cell.func, key := cell.key, value := octets cell.value }

def copy (octets : Chashpointer → Chashdatum) (hash : Pointerchash) : Chash :=
  { size := hash.size, count := hash.count, cells := hash.cells.map fun chain => chain.map (copyCell octets) }

variable {octets : Chashpointer → Chashdatum} {hash : Pointerchash} {key : Chashdatum} {value : Chashpointer} {func : UInt32}

theorem isKey_copy (cell : Pointercell) : Chash.isKey func key (copyCell octets cell) = isKey func key cell := rfl

theorem getD_map {cells : List (List Pointercell)} (indx : Nat) :
    (cells.map fun chain => chain.map (copyCell octets)).getD indx [] = (cells.getD indx []).map (copyCell octets) := by
  rw [List.getD_eq_getElem?_getD, List.getD_eq_getElem?_getD, List.getElem?_map]
  cases cells[indx]? with
  | none => rfl
  | some chain => rfl

theorem bucket_copy (indx : Nat) : (hash.copy octets).bucket indx = (hash.bucket indx).map (copyCell octets) := getD_map indx

theorem changeFirst_copy {change : Pointercell → List Pointercell} {changeCopy : Chashcell → List Chashcell}
    (copies : ∀ cell, changeCopy (copyCell octets cell) = (change cell).map (copyCell octets)) (chain : List Pointercell) :
    changeFirst (Chash.isKey func key) changeCopy (chain.map (copyCell octets)) =
      (changeFirst (isKey func key) change chain).map fun chain => chain.map (copyCell octets) := by
  induction chain with
  | nil => rfl
  | cons cell chain ih =>
      rw [List.map_cons, changeFirst, changeFirst, isKey_copy]
      split_ifs
      · rw [Option.map_some, List.map_append, copies]
      · rw [ih, Option.map_map, Option.map_map]
        rfl

theorem replaceValue_copy (chain : List Pointercell) :
    Chash.replaceValue func key (octets value) (chain.map (copyCell octets)) =
      (replaceValue func key value chain).map fun chain => chain.map (copyCell octets) :=
  changeFirst_copy (fun _ => rfl) chain

theorem unlinkKey_copy (chain : List Pointercell) :
    Chash.unlinkKey func key (chain.map (copyCell octets)) = (unlinkKey func key chain).map fun chain => chain.map (copyCell octets) :=
  changeFirst_copy (fun _ => rfl) chain

theorem rehash_copy (size : UInt32) (cells : List (List Pointercell)) (cell : Pointercell) :
    Chash.rehash size (cells.map fun chain => chain.map (copyCell octets)) (copyCell octets cell) =
      (rehash size cells cell).map fun chain => chain.map (copyCell octets) := by
  rw [Chash.rehash, rehash, List.map_set, getD_map]
  rfl

theorem rehash_chain (size : UInt32) (chain : List Pointercell) (cells : List (List Pointercell)) :
    (chain.map (copyCell octets)).foldl (Chash.rehash size) (cells.map fun chain => chain.map (copyCell octets)) =
      (chain.foldl (rehash size) cells).map fun chain => chain.map (copyCell octets) := by
  induction chain generalizing cells with
  | nil => rfl
  | cons cell chain ih =>
      rw [List.map_cons, List.foldl_cons, List.foldl_cons, rehash_copy]
      exact ih _

theorem rehash_chains (size : UInt32) (chains cells : List (List Pointercell)) :
    (chains.map fun chain => chain.map (copyCell octets)).foldl (fun cells chain => chain.foldl (Chash.rehash size) cells)
        (cells.map fun chain => chain.map (copyCell octets)) =
      (chains.foldl (fun cells chain => chain.foldl (rehash size) cells) cells).map fun chain => chain.map (copyCell octets) := by
  induction chains generalizing cells with
  | nil => rfl
  | cons chain chains ih =>
      rw [List.map_cons, List.foldl_cons, List.foldl_cons, rehash_chain]
      exact ih _

theorem empty_copy (size : UInt32) :
    (List.replicate size.toNat ([] : List Pointercell)).map (fun chain => chain.map (copyCell octets)) = List.replicate size.toNat [] := by
  rw [List.map_replicate]
  rfl

theorem chashResize_copy (size : UInt32) : (hash.chashResize size).copy octets = Chash.chashResize (hash.copy octets) size := by
  rw [chashResize, Chash.chashResize]
  by_cases same : hash.size = size
  · rw [if_pos same, if_pos (show (hash.copy octets).size = size from same)]
  · rw [if_neg same, if_neg (show ¬ (hash.copy octets).size = size from same)]
    have cells := @rehash_chains octets size hash.cells (List.replicate size.toNat [])
    rw [empty_copy] at cells
    simp only [copy, cells]

theorem chashSet_copy : (hash.chashSet key value).2.copy octets = (Chash.chashSet (hash.copy octets) key (octets value)).2 := by
  have sized : hash.grown.copy octets = if (hash.copy octets).count > (hash.copy octets).size * CHASH_MAXDEPTH then
      Chash.chashResize (hash.copy octets) ((hash.copy octets).count / CHASH_MAXDEPTH * 2 + 1) else hash.copy octets := by
    rw [grown, apply_ite (copy octets), chashResize_copy]
    rfl
  rw [chashSet, Chash.chashSet, ← sized]
  have sameSize : (hash.grown.copy octets).size = hash.grown.size := rfl
  rw [bucket_copy, replaceValue_copy, sameSize]
  cases replaceValue (chashFunc key.data) key value (hash.grown.bucket (chashFunc key.data % hash.grown.size).toNat) with
  | some chain =>
      dsimp only [Option.map_some]
      simp only [copy, List.map_set]
  | none =>
      dsimp only [Option.map_none]
      simp only [copy, List.map_set, List.map_cons, copyCell]

theorem chashDelete_copy : (hash.chashDelete key).2.copy octets = (Chash.chashDelete (hash.copy octets) key).2 := by
  rw [chashDelete, Chash.chashDelete]
  have sameSize : (hash.copy octets).size = hash.size := rfl
  rw [bucket_copy, unlinkKey_copy, sameSize]
  cases unlinkKey (chashFunc key.data) key (hash.bucket (chashFunc key.data % hash.size).toNat) with
  | some chain =>
      dsimp only [Option.map_some]
      simp only [copy, List.map_set]
  | none => rfl

theorem chashClear_copy : hash.chashClear.copy octets = Chash.chashClear (hash.copy octets) := by
  rw [chashClear, Chash.chashClear]
  simp only [copy, empty_copy]

theorem chashNew_copy (size : UInt32) : (chashNew size).copy octets = Chash.chashNew size := by
  rw [chashNew, Chash.chashNew]
  simp only [copy, empty_copy]

theorem chashGet_copy : Chash.chashGet (hash.copy octets) key = (hash.chashGet key).map octets := by
  have sameSize : (hash.copy octets).size = hash.size := rfl
  rw [Chash.chashGet, chashGet, findCell]
  rw [bucket_copy, sameSize, List.find?_map, Option.map_map, Option.map_map]
  rfl

abbrev Map := Chashdatum → Option Chashpointer

/-- Whatever octets stand for the values, the table holds the map. -/
def Holds (hash : Pointerchash) (map : Map) : Prop := ∀ octets, Chash.Holds (hash.copy octets) fun key => (map key).map octets

variable {map : Map}

theorem update_copy (key : Chashdatum) (value : Option Chashpointer) :
    (fun other => (Function.update map key value other).map octets) = Function.update (fun other => (map other).map octets) key (value.map octets) := by
  funext other
  by_cases same : other = key
  · subst same
    rw [Function.update_self, Function.update_self]
  · rw [Function.update_of_ne same, Function.update_of_ne same]

theorem Holds.set (holds : Holds hash map) (key : Chashdatum) (value : Chashpointer) :
    Holds (hash.chashSet key value).2 (Function.update map key (some value)) := by
  intro octets
  rw [chashSet_copy, update_copy]
  exact (holds octets).set key (octets value)

theorem Holds.delete (holds : Holds hash map) (key : Chashdatum) : Holds (hash.chashDelete key).2 (Function.update map key none) := by
  intro octets
  rw [chashDelete_copy, update_copy]
  exact (holds octets).delete key

theorem Holds.resize (holds : Holds hash map) {size : UInt32} (positive : 0 < size.toNat) : Holds (hash.chashResize size) map := by
  intro octets
  rw [chashResize_copy]
  exact (holds octets).resize positive

theorem Holds.grown (holds : Holds hash map) : Holds hash.grown map := by
  rw [Pointerchash.grown]
  split_ifs
  · exact holds.resize (Chash.resized_positive hash.count)
  · exact holds

theorem Holds.clear (holds : Holds hash map) : Holds hash.chashClear fun _ => none := by
  intro octets
  rw [chashClear_copy]
  exact (holds octets).clear

theorem chashNew_holds (size : UInt32) : Holds (chashNew size) fun _ => none := by
  intro octets
  rw [chashNew_copy]
  exact Chash.chashNew_holds size

def mark (value : Chashpointer) (other : Chashpointer) : Chashdatum :=
  if other = value then { data := [], bounded := by decide } else { data := [0], bounded := by decide }

theorem mark_injective {value other : Chashpointer} (same : mark value other = mark value value) : other = value := by
  rw [mark, mark, if_pos rfl] at same
  split_ifs at same with isValue
  · exact isValue
  · cases same

theorem Holds.get (holds : Holds hash map) (key : Chashdatum) : hash.chashGet key = map key := by
  have alike : ∀ octets : Chashpointer → Chashdatum, (hash.chashGet key).map octets = (map key).map octets := by
    intro octets
    rw [← chashGet_copy]
    exact (holds octets).get key
  cases stored : map key with
  | none =>
      have none_ := alike (mark .null)
      rw [stored, Option.map_none] at none_
      exact Option.map_eq_none_iff.mp none_
  | some value =>
      have marked := alike (mark value)
      rw [stored, Option.map_some] at marked
      obtain ⟨other, isOther, same⟩ := Option.map_eq_some_iff.mp marked
      rw [isOther, mark_injective same]

/-- A requested size is at least 1. -/
inductive Operation where
  | set (key : Chashdatum) (value : Chashpointer)
  | get (key : Chashdatum)
  | delete (key : Chashdatum)
  | clear
  | resize (size : UInt32) (positive : 1 ≤ size)

namespace Operation

def step (hash : Pointerchash) : Operation → Pointerchash
  | set key value => (hash.chashSet key value).2
  | get _ => hash
  | delete key => (hash.chashDelete key).2
  | clear => hash.chashClear
  | resize size _ => hash.chashResize size

def onMap (map : Map) : Operation → Map
  | set key value => Function.update map key (some value)
  | get _ => map
  | delete key => Function.update map key none
  | clear => fun _ => none
  | resize _ _ => map

end Operation

theorem Holds.step (holds : Holds hash map) (operation : Operation) : Holds (operation.step hash) (operation.onMap map) := by
  cases operation with
  | set key value => exact holds.set key value
  | get key => exact holds
  | delete key => exact holds.delete key
  | clear => exact holds.clear
  | resize size positive => exact holds.resize (UInt32.le_iff_toNat_le.mp positive)

theorem Holds.run (holds : Holds hash map) (operations : List Operation) :
    Holds (operations.foldl Operation.step hash) (operations.foldl Operation.onMap map) := by
  induction operations generalizing hash map with
  | nil => exact holds
  | cons operation operations ih => exact ih (holds.step operation)

theorem changeFirst_found {change : Pointercell → List Pointercell} (chain : List Pointercell) :
    (changeFirst (isKey func key) change chain).isSome = (chain.find? (isKey func key)).isSome := by
  cases changed : changeFirst (isKey func key) change chain with
  | none =>
      have absent := changeFirst_none changed
      have notFound : chain.find? (isKey func key) = none := List.find?_eq_none.mpr fun cell member => by simp [absent cell member]
      rw [notFound]
      rfl
  | some after =>
      obtain ⟨front, cell, back, rfl, isCell, -⟩ := changeFirst_some changed
      exact (List.find?_isSome.mpr ⟨cell, List.mem_append_right front List.mem_cons_self, isCell⟩).symm

theorem Holds.set_old (holds : Holds hash map) (key : Chashdatum) (value : Chashpointer) :
    (hash.chashSet key value).1 = if (map key).isSome then value else .null := by
  have known := holds.grown.get key
  have replaced := @changeFirst_found key (chashFunc key.data) (fun cell => [{ cell with value := value }])
    (hash.grown.bucket (chashFunc key.data % hash.grown.size).toNat)
  rw [← known, chashGet, Option.isSome_map, findCell, ← replaced, chashSet, replaceValue]
  cases changeFirst (isKey (chashFunc key.data) key) (fun cell => [{ cell with value := value }])
      (hash.grown.bucket (chashFunc key.data % hash.grown.size).toNat) with
  | none => rfl
  | some chain => rfl

theorem Holds.delete_old (holds : Holds hash map) (key : Chashdatum) : (hash.chashDelete key).1 = map key := by
  have unlinked := @changeFirst_found key (chashFunc key.data) (fun _ => []) (hash.bucket (chashFunc key.data % hash.size).toNat)
  have known := holds.get key
  rw [chashDelete, unlinkKey]
  cases found : changeFirst (isKey (chashFunc key.data) key) (fun _ => []) (hash.bucket (chashFunc key.data % hash.size).toNat) with
  | none =>
      rw [found, Option.isSome_none] at unlinked
      have missing := Option.isSome_eq_false_iff.mp unlinked.symm
      rw [← known, chashGet, findCell, Option.isNone_iff_eq_none.mp missing]
      rfl
  | some chain => exact known

/-- The value of the key before the call is reported, NULL where it has none. -/
structure ReportsOld (hash : Pointerchash) (map : Map) (key : Chashdatum) (value : Chashpointer) : Prop where
  set : (hash.chashSet key value).1 = (map key).getD .null
  delete : (hash.chashDelete key).1 = map key

/-- After any run on a new table, `chash_set` reports the old value only where the key has none or has the new one. -/
theorem chashRun_reportsOld (size : UInt32) (operations : List Operation) (key : Chashdatum) (value : Chashpointer) :
    let hash := operations.foldl Operation.step (chashNew size)
    let map : Map := operations.foldl Operation.onMap fun _ => none
    ReportsOld hash map key value ↔ ∀ old, map key = some old → old = value := by
  intro hash map
  have holds : Holds hash map := (chashNew_holds size).run operations
  have setOld := holds.set_old key value
  constructor
  · intro reports old stored
    have left := reports.set
    rw [setOld, stored] at left
    exact left.symm
  · intro same
    refine ⟨?_, holds.delete_old key⟩
    rw [setOld]
    cases stored : map key with
    | none => rfl
    | some old => exact (same old stored).symm

def oneKey : Chashdatum := { data := [107], bounded := by decide }

/-- The second value is reported in place of the first. -/
theorem chashSet_reportsNew : ¬ ReportsOld ([Operation.set oneKey ⟨1, 1⟩].foldl Operation.step (chashNew 1))
    ([Operation.set oneKey ⟨1, 1⟩].foldl Operation.onMap fun _ => none) oneKey ⟨2, 1⟩ := by
  intro reports
  have holds := (chashNew_holds 1).run [Operation.set oneKey ⟨1, 1⟩]
  have setOld := holds.set_old oneKey ⟨2, 1⟩
  have left := reports.set
  rw [setOld] at left
  simp [Operation.onMap] at left

end Pointerchash

end Etpan.DataTypes
