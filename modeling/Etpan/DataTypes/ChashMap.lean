import Etpan.Data.Loop
import Etpan.DataTypes.Chash

namespace Etpan.DataTypes

open Etpan.Data

/-! Every run of operations on a hash table follows the same operations on a map. -/

namespace Chash

abbrev Map := Chashdatum → Option Chashdatum

def entry (cell : Chashcell) : Chashdatum × Chashdatum := (cell.key, cell.value)

def Placed (size : UInt32) (cells : List (List Chashcell)) : Prop :=
  ∀ indx, ∀ cell ∈ cells.getD indx [], (cell.func % size).toNat = indx

structure Holds (hash : Chash) (map : Map) : Prop where
  nonempty : 0 < hash.size.toNat
  buckets : hash.cells.length = hash.size.toNat
  placed : Placed hash.size hash.cells
  hashed : ∀ cell ∈ hash.cells.flatten, cell.func = chashFunc cell.key.data
  tabulates : Tabulates (hash.cells.flatten.map entry) map
  counted : hash.count = UInt32.ofNat hash.cells.flatten.length

variable {hash : Chash} {map : Map} {key value : Chashdatum} {size : UInt32} {cells : List (List Chashcell)}
  {chain : List Chashcell} {cell : Chashcell} {indx : Nat}

theorem isKey_iff (hashed : cell.func = chashFunc cell.key.data) : isKey (chashFunc key.data) key cell = true ↔ cell.key = key := by
  simp only [isKey, Bool.and_eq_true, beq_iff_eq]
  constructor
  · rintro ⟨_, same⟩
    cases cellKey : cell.key with
    | mk data bounded =>
        rw [cellKey] at same
        cases key
        cases same
        rfl
  · rintro rfl
    exact ⟨⟨rfl, hashed⟩, rfl⟩

theorem Placed.set (placed : Placed size cells) (chainPlaced : ∀ cell ∈ chain, (cell.func % size).toNat = indx) :
    Placed size (cells.set indx chain) := by
  intro other cell member
  rw [List.getD_eq_getElem?_getD, List.getElem?_set] at member
  split at member
  · next same =>
    subst same
    split at member
    · exact chainPlaced cell member
    · cases member
  · exact placed other cell (by rwa [List.getD_eq_getElem?_getD])

theorem getElem?_bucket (inside : indx < cells.length) : cells[indx]? = some (cells.getD indx []) := by
  rw [List.getD_eq_getElem?_getD, List.getElem?_eq_getElem inside]
  rfl

theorem Placed.mem_bucket (placed : Placed size cells) (member : cell ∈ cells.flatten) :
    cell ∈ cells.getD (cell.func % size).toNat [] := by
  obtain ⟨bucket, isBucket, inside⟩ := List.mem_flatten.mp member
  obtain ⟨indx, bound, rfl⟩ := List.mem_iff_getElem.mp isBucket
  have here : cells.getD indx [] = cells[indx] := by
    rw [List.getD_eq_getElem?_getD, List.getElem?_eq_getElem bound]
    rfl
  rw [← here] at inside
  rwa [placed indx cell inside]

theorem Holds.inside (holds : Holds hash map) (func : UInt32) : (func % hash.size).toNat < hash.cells.length := by
  rw [holds.buckets, UInt32.toNat_mod]
  exact Nat.mod_lt _ holds.nonempty

theorem mem_flatten_of_bucket (member : cell ∈ cells.getD indx []) : cell ∈ cells.flatten := by
  by_cases inside : indx < cells.length
  · exact List.mem_flatten.mpr ⟨_, List.mem_of_getElem? (getElem?_bucket inside), member⟩
  · rw [List.getD_eq_getElem?_getD, List.getElem?_eq_none (Nat.le_of_not_lt inside)] at member
    cases member

theorem Holds.absent (holds : Holds hash map)
    (missing : ∀ cell ∈ hash.bucket (chashFunc key.data % hash.size).toNat, isKey (chashFunc key.data) key cell = false) :
    map key = none := by
  refine holds.tabulates.absent.mpr ?_
  intro member
  obtain ⟨_, isEntry, rfl⟩ := List.mem_map.mp member
  obtain ⟨cell, inside, rfl⟩ := List.mem_map.mp isEntry
  have hashed := holds.hashed cell inside
  have here := holds.placed.mem_bucket inside
  rw [hashed] at here
  have unequal : isKey (chashFunc cell.key.data) cell.key cell = false := missing cell here
  rw [(isKey_iff hashed).mpr rfl] at unequal
  cases unequal

theorem Holds.get (holds : Holds hash map) (key : Chashdatum) : chashGet hash key = map key := by
  rw [chashGet]
  cases found : (hash.bucket (chashFunc key.data % hash.size).toNat).find? (isKey (chashFunc key.data) key) with
  | none =>
      refine (holds.absent ?_).symm
      intro cell member
      simpa using List.find?_eq_none.mp found cell member
  | some cell =>
      have inside := mem_flatten_of_bucket (List.mem_of_find?_eq_some found)
      have isCell := (isKey_iff (holds.hashed cell inside)).mp (List.find?_some found)
      refine ((holds.tabulates.exact key cell.value).mpr ?_).symm
      rw [← isCell]
      exact List.mem_map_of_mem inside

theorem rehash_fold (positive : 0 < size.toNat) {moving : List Chashcell} (length : cells.length = size.toNat)
    (placed : Placed size cells) :
    (moving.foldl (rehash size) cells).length = size.toNat ∧ Placed size (moving.foldl (rehash size) cells) ∧
      (moving.foldl (rehash size) cells).flatten.Perm (moving ++ cells.flatten) := by
  induction moving generalizing cells with
  | nil => exact ⟨length, placed, List.Perm.refl _⟩
  | cons cell rest ih =>
      have inside : (cell.func % size).toNat < cells.length := by
        rw [length, UInt32.toNat_mod]
        exact Nat.mod_lt _ positive
      have nextPlaced : Placed size (rehash size cells cell) := by
        refine placed.set ?_
        intro other member
        rcases List.mem_cons.mp member with rfl | old
        · rfl
        · exact placed _ other old
      have nextPerm : (rehash size cells cell).flatten.Perm (cell :: cells.flatten) :=
        (set_flatten_perm inside _).trans ((flatten_perm (getElem?_bucket inside)).symm.cons cell)
      obtain ⟨restLength, restPlaced, restPerm⟩ := ih (by rw [rehash, List.length_set, length]) nextPlaced
      refine ⟨restLength, restPlaced, restPerm.trans ?_⟩
      exact (nextPerm.append_left rest).trans List.perm_middle

theorem Holds.resize (holds : Holds hash map) (positive : 0 < size.toNat) : Holds (chashResize hash size) map := by
  by_cases same : hash.size = size
  · rwa [chashResize, if_pos same]
  · have empty : (List.replicate size.toNat ([] : List Chashcell)).flatten = [] := by simp
    have emptyPlaced : Placed size (List.replicate size.toNat []) := by
      intro indx cell member
      have none := mem_flatten_of_bucket member
      rw [empty] at none
      cases none
    obtain ⟨length, placed, perm⟩ :=
      @rehash_fold size (List.replicate size.toNat []) positive hash.cells.flatten List.length_replicate emptyPlaced
    rw [empty, List.append_nil, List.foldl_flatten] at perm
    rw [List.foldl_flatten] at length placed
    rw [chashResize, if_neg same]
    refine ⟨positive, length, placed, ?_, holds.tabulates.perm (perm.symm.map entry), ?_⟩
    · exact fun cell member => holds.hashed cell (perm.mem_iff.mp member)
    · rw [holds.counted, perm.length_eq]

theorem Holds.rebucket (holds : Holds hash map) {after : Map} {count : UInt32} {rest : List Chashcell}
    (perm : (hash.cells.set indx chain).flatten.Perm rest)
    (chainPlaced : ∀ cell ∈ chain, (cell.func % hash.size).toNat = indx)
    (hashed : ∀ cell ∈ rest, cell.func = chashFunc cell.key.data) (tabulates : Tabulates (rest.map entry) after)
    (counted : count = UInt32.ofNat rest.length) : Holds { hash with cells := hash.cells.set indx chain, count := count } after :=
  ⟨holds.nonempty, by rw [List.length_set, holds.buckets], holds.placed.set chainPlaced,
    fun cell member => hashed cell (perm.mem_iff.mp member), tabulates.perm (perm.symm.map entry),
    by rw [counted, perm.length_eq]⟩

theorem Holds.split (holds : Holds hash map) {front back : List Chashcell} {func : UInt32}
    (chain : hash.bucket (func % hash.size).toNat = front ++ cell :: back) :
    hash.cells.flatten.Perm (cell :: (front ++ back ++ (hash.cells.eraseIdx (func % hash.size).toNat).flatten)) := by
  have perm := flatten_perm (getElem?_bucket (holds.inside func))
  change hash.cells.flatten.Perm (hash.bucket (func % hash.size).toNat ++ _) at perm
  rw [chain] at perm
  exact perm.trans (List.perm_middle.append_right _)

theorem Holds.store (holds : Holds hash map) (key value : Chashdatum) :
    let func := chashFunc key.data
    let indx := (func % hash.size).toNat
    Holds (match replaceValue func key value (hash.bucket indx) with
      | some chain => { hash with cells := hash.cells.set indx chain }
      | none => { hash with cells := hash.cells.set indx (⟨func, key, value⟩ :: hash.bucket indx), count := hash.count + 1 })
      (Function.update map key (some value)) := by
  intro func indx
  have inside := holds.inside func
  cases replaced : replaceValue func key value (hash.bucket indx) with
  | some chain =>
      obtain ⟨front, cell, back, bucket, found, rfl⟩ := changeFirst_some replaced
      have split := holds.split bucket
      have member : cell ∈ hash.bucket indx := by simp [bucket]
      have hashed := holds.hashed cell (mem_flatten_of_bucket member)
      have isCell : cell.key = key := (isKey_iff hashed).mp found
      have tabulates := holds.tabulates.perm (split.map entry)
      rw [List.map_cons, entry, isCell] at tabulates
      have perm : (hash.cells.set indx (front ++ ([{ cell with value := value }] ++ back))).flatten.Perm
          ({ cell with value := value } :: (front ++ back ++ (hash.cells.eraseIdx indx).flatten)) :=
        (set_flatten_perm inside _).trans (List.perm_middle.append_right _)
      refine holds.rebucket perm ?_ ?_ ?_ ?_
      · intro other here
        simp only [List.singleton_append, List.mem_append, List.mem_cons] at here
        rcases here with inFront | rfl | inBack
        · exact holds.placed indx other (by change other ∈ hash.bucket indx; simp [bucket, inFront])
        · exact holds.placed indx cell member
        · exact holds.placed indx other (by change other ∈ hash.bucket indx; simp [bucket, inBack])
      · intro other here
        rcases List.mem_cons.mp here with rfl | old
        · exact hashed
        · exact holds.hashed other (split.mem_iff.mpr (List.mem_cons_of_mem _ old))
      · rw [List.map_cons, entry, isCell]
        exact tabulates.replace value
      · rw [holds.counted, split.length_eq]
        rfl
  | none =>
      have absent := holds.absent (changeFirst_none replaced)
      have perm : (hash.cells.set indx (⟨func, key, value⟩ :: hash.bucket indx)).flatten.Perm
          (⟨func, key, value⟩ :: hash.cells.flatten) :=
        (set_flatten_perm inside _).trans ((flatten_perm (getElem?_bucket inside)).symm.cons _)
      refine holds.rebucket perm ?_ ?_ (holds.tabulates.cons absent value) ?_
      · intro other here
        rcases List.mem_cons.mp here with rfl | old
        · rfl
        · exact holds.placed indx other old
      · intro other here
        rcases List.mem_cons.mp here with rfl | old
        · rfl
        · exact holds.hashed other old
      · rw [holds.counted, List.length_cons, UInt32.ofNat_add]
        rfl

theorem resized_positive (count : UInt32) : 0 < (count / CHASH_MAXDEPTH * 2 + 1).toNat := by
  have bounded := count.toNat_lt
  have third : (count / CHASH_MAXDEPTH).toNat = count.toNat / 3 := UInt32.toNat_div _ _
  rw [UInt32.toNat_add, UInt32.toNat_mul, third, show (2 : UInt32).toNat = 2 from rfl, show (1 : UInt32).toNat = 1 from rfl]
  omega

theorem Holds.set (holds : Holds hash map) (key value : Chashdatum) :
    Holds (chashSet hash key value).2 (Function.update map key (some value)) := by
  generalize made : (if hash.count > hash.size * CHASH_MAXDEPTH then chashResize hash (hash.count / CHASH_MAXDEPTH * 2 + 1)
    else hash) = sized
  have sizedHolds : Holds sized map := by
    rw [← made]
    split
    · exact holds.resize (resized_positive hash.count)
    · exact holds
  have stored := sizedHolds.store key value
  rw [chashSet, made]
  dsimp only at stored ⊢
  cases replaced : replaceValue (chashFunc key.data) key value
      (sized.bucket (chashFunc key.data % sized.size).toNat) with
  | some chain => simpa only [replaced] using stored
  | none => simpa only [replaced] using stored

theorem Holds.delete (holds : Holds hash map) (key : Chashdatum) :
    Holds (chashDelete hash key).2 (Function.update map key none) := by
  have inside := holds.inside (chashFunc key.data)
  cases unlinked : unlinkKey (chashFunc key.data) key (hash.bucket (chashFunc key.data % hash.size).toNat) with
  | some chain =>
      obtain ⟨front, cell, back, bucket, found, rfl⟩ := changeFirst_some unlinked
      have split := holds.split bucket
      have member : cell ∈ hash.bucket (chashFunc key.data % hash.size).toNat := by
        rw [bucket]
        exact List.mem_append_right _ List.mem_cons_self
      have isCell : cell.key = key := (isKey_iff (holds.hashed cell (mem_flatten_of_bucket member))).mp found
      have tabulates := holds.tabulates.perm (split.map entry)
      rw [List.map_cons, entry, isCell] at tabulates
      have perm : (hash.cells.set (chashFunc key.data % hash.size).toNat (front ++ ([] ++ back))).flatten.Perm
          (front ++ back ++ (hash.cells.eraseIdx (chashFunc key.data % hash.size).toNat).flatten) :=
        set_flatten_perm inside _
      simp only [chashDelete, unlinked]
      refine holds.rebucket perm ?_ ?_ tabulates.tail ?_
      · intro other here
        refine holds.placed _ other ?_
        change other ∈ hash.bucket _
        rw [bucket]
        rcases List.mem_append.mp here with inFront | inBack
        · exact List.mem_append_left _ inFront
        · exact List.mem_append_right _ (List.mem_cons_of_mem _ inBack)
      · exact fun other here => holds.hashed other (split.mem_iff.mpr (List.mem_cons_of_mem _ here))
      · rw [holds.counted, split.length_eq, List.length_cons, UInt32.ofNat_add]
        exact UInt32.add_sub_cancel _ _
  | none =>
      have absent := holds.absent (changeFirst_none unlinked)
      have same : Function.update map key none = map := by rw [← absent, Function.update_eq_self]
      simpa only [chashDelete, unlinked, same] using holds

theorem empty_holds {size : UInt32} (positive : 0 < size.toNat) :
    Holds { size := size, count := 0, cells := List.replicate size.toNat [] } fun _ => none := by
  have empty : (List.replicate size.toNat ([] : List Chashcell)).flatten = [] := by simp
  refine ⟨positive, List.length_replicate, ?_, ?_, ?_, ?_⟩
  · intro indx cell member
    have none := mem_flatten_of_bucket member
    rw [empty] at none
    cases none
  · rw [empty]
    exact fun cell member => absurd member List.not_mem_nil
  · rw [empty]
    exact Tabulates.nil
  · rw [empty]
    rfl

theorem Holds.clear (holds : Holds hash map) : Holds (chashClear hash) fun _ => none :=
  empty_holds holds.nonempty

theorem chashNew_holds (size : UInt32) : Holds (chashNew size) fun _ => none := by
  refine empty_holds ?_
  have least : CHASH_DEFAULTSIZE.toNat = 13 := rfl
  split
  · omega
  · next large =>
    have := UInt32.le_iff_toNat_le.mp (UInt32.not_lt.mp large)
    omega

theorem firstCell_eq (lists : List (List Chashcell)) :
    firstCell lists = [] ∧ lists.flatten = [] ∨
      ∃ indx, lists[indx]? = some (firstCell lists) ∧ firstCell lists ≠ [] ∧
        lists.flatten = firstCell lists ++ (lists.drop (indx + 1)).flatten := by
  induction lists with
  | nil => exact .inl ⟨rfl, rfl⟩
  | cons chain rest ih =>
      cases chain with
      | cons cell next => exact .inr ⟨0, rfl, List.cons_ne_nil _ _, rfl⟩
      | nil =>
          rcases ih with ⟨none, empty⟩ | ⟨indx, here, some, flat⟩
          · exact .inl ⟨none, empty⟩
          · exact .inr ⟨indx + 1, here, some, flat⟩

theorem Holds.visits_rest (holds : Holds hash map) {rounds : Nat} {iter front : List Chashcell}
    (here : hash.cells[indx]? = some (front ++ iter))
    (enough : (iter ++ (hash.cells.drop (indx + 1)).flatten).length ≤ rounds) (nonempty : iter ≠ []) :
    visits hash rounds iter = some (iter ++ (hash.cells.drop (indx + 1)).flatten) := by
  induction rounds generalizing iter front indx with
  | zero =>
      cases iter with
      | nil => exact absurd rfl nonempty
      | cons cell next => simp at enough
  | succ rounds ih =>
      cases iter with
      | nil => exact absurd rfl nonempty
      | cons cell next =>
          have bucket : hash.cells.getD indx [] = front ++ cell :: next := by
            rw [List.getD_eq_getElem?_getD, here]
            rfl
          have isIndx : (cell.func % hash.size).toNat = indx := holds.placed indx cell (by rw [bucket]; simp)
          simp only [List.cons_append, List.length_cons] at enough
          rw [visits]
          cases next with
          | cons other behind =>
              have further := @ih indx (other :: behind) (front ++ [cell]) (by simpa using here) (by omega)
                (List.cons_ne_nil _ _)
              simp only [chashNext, further]
              rfl
          | nil =>
              simp only [chashNext, isIndx, List.nil_append] at enough ⊢
              rcases firstCell_eq (hash.cells.drop (indx + 1)) with ⟨none, empty⟩ | ⟨behind, there, some, flat⟩
              · rw [none, empty]
                cases rounds <;> rfl
              · rw [List.getElem?_drop] at there
                rw [List.drop_drop] at flat
                have further := @ih (indx + 1 + behind) _ [] there (by
                  rw [flat] at enough
                  simpa [Nat.add_assoc] using Nat.le_of_succ_le_succ enough) some
                rw [further, flat]
                rfl

theorem Holds.visits_begin (holds : Holds hash map) {rounds : Nat} (enough : hash.cells.flatten.length ≤ rounds) :
    visits hash rounds (chashBegin hash) = some hash.cells.flatten := by
  rw [chashBegin]
  rcases firstCell_eq hash.cells with ⟨none, empty⟩ | ⟨indx, here, some, flat⟩
  · rw [none, empty]
    cases rounds <;> rfl
  · rw [flat] at enough
    exact (@Holds.visits_rest _ _ indx holds rounds _ [] here enough some).trans (congrArg Option.some flat.symm)

/-- A requested size is at least 1. -/
inductive Operation where
  | set (key value : Chashdatum)
  | get (key : Chashdatum)
  | delete (key : Chashdatum)
  | clear
  | resize (size : UInt32) (positive : 1 ≤ size)

namespace Operation

def step (hash : Chash) : Operation → Chash
  | set key value => (chashSet hash key value).2
  | get _ => hash
  | delete key => (chashDelete hash key).2
  | clear => chashClear hash
  | resize size _ => chashResize hash size

def onMap (map : Map) : Operation → Map
  | set key value => Function.update map key (some value)
  | get _ => map
  | delete key => Function.update map key none
  | clear => fun _ => none
  | resize _ _ => map

end Operation

theorem Holds.step (holds : Holds hash map) (operation : Operation) : Holds (operation.step hash) (operation.onMap map) := by
  cases operation with
  | set key value => exact holds.set key value
  | get key => exact holds
  | delete key => exact holds.delete key
  | clear => exact holds.clear
  | resize size positive => exact holds.resize (UInt32.le_iff_toNat_le.mp positive)

theorem Holds.run (holds : Holds hash map) (operations : List Operation) :
    Holds (operations.foldl Operation.step hash) (operations.foldl Operation.onMap map) := by
  induction operations generalizing hash map with
  | nil => exact holds
  | cons operation operations ih => exact ih (holds.step operation)

/-- After any run on a new table chash_get gives what the same run on a map does, each cell is in its bucket, and the
iteration visits one cell for each key, as many as are counted modulo 2^32. -/
theorem chashRun_refines_map (size : UInt32) (operations : List Operation) :
    let hash := operations.foldl Operation.step (chashNew size)
    let map : Map := operations.foldl Operation.onMap fun _ => none
    (∀ key, chashGet hash key = map key) ∧
      (∀ indx, ∀ cell ∈ hash.bucket indx, (chashFunc cell.key.data % hash.size).toNat = indx) ∧
        ∃ visited : List Chashcell, (∀ rounds ≥ visited.length, visits hash rounds (chashBegin hash) = some visited) ∧
          Tabulates (visited.map entry) map ∧ hash.count.toNat = visited.length % 2 ^ 32 := by
  intro hash map
  have holds : Holds hash map := (chashNew_holds size).run operations
  refine ⟨holds.get, ?_, hash.cells.flatten, fun _ enough => holds.visits_begin enough, holds.tabulates, ?_⟩
  · intro indx cell member
    rw [← holds.hashed cell (mem_flatten_of_bucket member)]
    exact holds.placed indx cell member
  · rw [holds.counted, UInt32.toNat_ofNat']

/-! ### More keys than the count can tell -/

/-- A key of four octets for each number below 2^32. -/
def numberKey (number : Nat) : Chashdatum where
  data := [UInt8.ofNat number, UInt8.ofNat (number / 256), UInt8.ofNat (number / 65536), UInt8.ofNat (number / 16777216)]
  bounded := by
    simp only [List.length_cons, List.length_nil]
    omega

theorem numberKey_injective {one two : Nat} (oneBounded : one < 2 ^ 32) (twoBounded : two < 2 ^ 32)
    (same : numberKey one = numberKey two) : one = two := by
  have octets := congrArg Chashdatum.data same
  simp only [numberKey, List.cons.injEq, and_true, ← UInt8.toNat_inj, UInt8.toNat_ofNat'] at octets
  omega

def manySets (bound : Nat) : List Operation :=
  (List.range bound).map fun number => .set (numberKey number) (numberKey 0)

theorem manySets_map (bound : Nat) (key : Chashdatum) :
    (manySets bound).foldl Operation.onMap (fun _ => none) key ≠ none ↔ key ∈ (List.range bound).map numberKey := by
  induction bound with
  | zero => simp [manySets]
  | succ bound ih =>
      rw [manySets, List.range_succ, List.map_append, List.foldl_append]
      change Function.update ((manySets bound).foldl Operation.onMap fun _ => none) (numberKey bound) (some (numberKey 0)) key ≠
        none ↔ _
      rw [List.map_append, List.mem_append, ← ih]
      by_cases same : key = numberKey bound
      · subst same
        simp
      · simp [same]

theorem manySets_count {bound : Nat} (bounded : bound ≤ 2 ^ 32) :
    ((manySets bound).foldl Operation.step (chashNew 1)).count = UInt32.ofNat bound ∧
      ((List.range bound).map numberKey).length = bound ∧ ((List.range bound).map numberKey).Nodup := by
  have holds := (chashNew_holds 1).run (manySets bound)
  have length : ((List.range bound).map numberKey).length = bound := by rw [List.length_map, List.length_range]
  have distinct : ((List.range bound).map numberKey).Nodup := by
    refine List.Nodup.map_on ?_ List.nodup_range
    intro one oneIn two twoIn
    have oneBelow := List.mem_range.mp oneIn
    have twoBelow := List.mem_range.mp twoIn
    exact numberKey_injective (Nat.lt_of_lt_of_le oneBelow bounded) (Nat.lt_of_lt_of_le twoBelow bounded)
  refine ⟨?_, length, distinct⟩
  have same := ((List.perm_ext_iff_of_nodup holds.tabulates.distinct distinct).mpr fun key => by
    rw [← manySets_map bound key, ne_eq, holds.tabulates.absent, not_not]).length_eq
  rw [List.length_map, List.length_map, length] at same
  rw [holds.counted, same]

/-- After 2^32 different keys were set in a new table, none of them deleted, chash_count is 0. -/
theorem chashRun_count_wraps :
    ((manySets (2 ^ 32)).foldl Operation.step (chashNew 1)).count = 0 ∧
      ((List.range (2 ^ 32)).map numberKey).length = 2 ^ 32 ∧ ((List.range (2 ^ 32)).map numberKey).Nodup ∧
        ∀ key, (manySets (2 ^ 32)).foldl Operation.onMap (fun _ => none) key ≠ none ↔
          key ∈ (List.range (2 ^ 32)).map numberKey := by
  obtain ⟨count, length, distinct⟩ := manySets_count (Nat.le_refl (2 ^ 32))
  have zero : UInt32.ofNat (2 ^ 32) = 0 := rfl
  exact ⟨count.trans zero, length, distinct, manySets_map (2 ^ 32)⟩

end Chash

end Etpan.DataTypes
