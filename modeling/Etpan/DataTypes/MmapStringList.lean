import Etpan.DataTypes.MmapString

namespace Etpan.DataTypes

open Etpan.Data

/-! Every run of operations on a string follows the same operations on a list of octets. -/

namespace MMAPString

theorem shift_one {n : UInt64} (small : n.toNat < 2 ^ 63) : (n <<< 1).toNat = n.toNat * 2 := by
  rw [UInt64.toNat_shiftLeft, show (1 : UInt64).toNat % 64 = 1 from rfl, Nat.shiftLeft_eq]
  omega

theorem powerRound_ends {num : UInt64} (small : num.toNat < 2 ^ 63) (n : UInt64) (power : ∃ k, n.toNat = 2 ^ k) :
    Round (fun n : UInt64 => ∃ k, n.toNat = 2 ^ k) (fun n : UInt64 => num ≤ n ∧ ∃ k, n.toNat = 2 ^ k)
      (fun n => 64 - Nat.log 2 n.toNat) n (powerRound num n) := by
  by_cases below : n < num
  · have belowNat := UInt64.lt_iff_toNat_lt.mp below
    have double := @shift_one n (by omega)
    have positive : 0 < n.toNat := by
      obtain ⟨k, power⟩ := power
      rw [power]
      exact Nat.two_pow_pos k
    simp only [powerRound, if_pos below]
    refine .next ?_ ?_
    · obtain ⟨k, power⟩ := power
      exact ⟨k + 1, by rw [double, power, Nat.pow_succ]⟩
    · simpa only [double] using @log_double n.toNat 64 positive (by omega)
  · simp only [powerRound, if_neg below]
    exact .left ⟨UInt64.not_lt.mp below, power⟩

theorem nearestPower_covers (num : UInt64) :
    num ≤ nearestPower 1 num ∧ (nearestPower 1 num = MY_MAXSIZE ∨ ∃ k, (nearestPower 1 num).toNat = 2 ^ k) := by
  have half : (MY_MAXSIZE / 2).toNat = 9223372036854775807 := rfl
  by_cases large : num > MY_MAXSIZE / 2
  · rw [nearestPower, if_pos large]
    have bounded := num.toNat_lt
    exact ⟨UInt64.le_iff_toNat_le.mpr (by rw [show MY_MAXSIZE.toNat = 18446744073709551615 from rfl]; omega), .inl rfl⟩
  · have smallNat := UInt64.le_iff_toNat_le.mp (UInt64.not_lt.mp large)
    obtain ⟨result, ended, covers, power⟩ :=
      loop_ends (@powerRound_ends num (by omega)) ⟨0, rfl⟩ (show 64 - Nat.log 2 (1 : UInt64).toNat < 65 by omega)
    rw [nearestPower, if_neg large, ended]
    exact ⟨covers, .inr power⟩

variable {string after : MMAPString} {memory : Memory} {pos len : UInt64} {val : Buffer}

def contents (string : MMAPString) : List UInt8 := string.str.take string.len.toNat

structure Sized (string : MMAPString) : Prop where
  block : string.str.length = string.allocatedLen.toNat
  within : string.len.toNat ≤ string.str.length
  short : string.len.toNat < 2 ^ 64 - 1

structure Valid (string : MMAPString) : Prop where
  block : string.str.length = string.allocatedLen.toNat
  within : string.len < string.allocatedLen
  terminated : string.str[string.len.toNat]? = some 0

theorem Valid.sized (valid : string.Valid) : string.Sized := by
  have within := UInt64.lt_iff_toNat_lt.mp valid.within
  have bounded := string.allocatedLen.toNat_lt
  exact ⟨valid.block, by rw [valid.block]; omega, by omega⟩

theorem Sized.contents_length (sized : string.Sized) : string.contents.length = string.len.toNat := by
  rw [contents, List.length_take, Nat.min_eq_left sized.within]

structure Room (string : MMAPString) (size : Nat) (memory : Memory) : Prop where
  recorded : size + 1 < 2 ^ 64
  made : size < string.allocatedLen.toNat ∨ memory.isSome

inductive Expanding (string : MMAPString) (len : UInt64) (memory : Memory) : Bool × MMAPString → Prop
  | refused (unable : ¬ string.Room (string.len.toNat + len.toNat) memory) : Expanding string len memory (false, string)
  | expanded {str : List UInt8} {allocatedLen : UInt64} (able : string.Room (string.len.toNat + len.toNat) memory)
      (needed : (string.len + len + 1).toNat = string.len.toNat + len.toNat + 1)
      (room : string.len.toNat + len.toNat < allocatedLen.toNat) (block : str.length = allocatedLen.toNat)
      (kept : str.take string.len.toNat = string.contents) :
      Expanding string len memory (true, ⟨str, string.len, allocatedLen⟩)

theorem Sized.maybeExpand (sized : string.Sized) (len : UInt64) (memory : Memory) :
    Expanding string len memory (mmapStringMaybeExpand string len memory) := by
  have most : MY_MAXSIZE.toNat = 18446744073709551615 := rfl
  have oneNat : (1 : UInt64).toNat = 1 := rfl
  have short := sized.short
  have left : (MY_MAXSIZE - string.len - 1).toNat = 18446744073709551614 - string.len.toNat := by
    have first : (MY_MAXSIZE - string.len).toNat = 18446744073709551615 - string.len.toNat :=
      UInt64.toNat_sub_of_le _ _ (UInt64.le_iff_toNat_le.mpr (by omega))
    rw [UInt64.toNat_sub_of_le _ _ (UInt64.le_iff_toNat_le.mpr (by omega)), first, oneNat]
    omega
  by_cases large : len > MY_MAXSIZE - string.len - 1
  · have largeNat := UInt64.lt_iff_toNat_lt.mp large
    simp only [mmapStringMaybeExpand, if_pos large]
    refine .refused fun able => ?_
    have := able.recorded
    omega
  · have smallNat := UInt64.le_iff_toNat_le.mp (UInt64.not_lt.mp large)
    have sum : (string.len + len).toNat = string.len.toNat + len.toNat := by
      rw [UInt64.toNat_add]
      omega
    have needed : (string.len + len + 1).toNat = string.len.toNat + len.toNat + 1 := by
      rw [UInt64.toNat_add, sum, oneNat]
      omega
    have size : string.len.toNat + len.toNat + 1 < 2 ^ 64 := by
      rw [← needed]
      exact UInt64.toNat_lt _
    by_cases full : string.len + len ≥ string.allocatedLen
    · have fullNat := UInt64.le_iff_toNat_le.mp full
      have covers := (nearestPower_covers (string.len + len + 1)).1
      have coversNat := UInt64.le_iff_toNat_le.mp covers
      simp only [mmapStringMaybeExpand, if_neg large, if_pos full, if_neg (UInt64.not_lt.mpr covers)]
      cases memory with
      | none =>
          refine .refused fun able => ?_
          rcases able.made with fits | memory
          · omega
          · cases memory
      | some stray =>
          have room : string.len.toNat + len.toNat < (nearestPower 1 (string.len + len + 1)).toNat := by omega
          refine .expanded ⟨size, .inr rfl⟩ needed room (realloc_length _ _ _) ?_
          exact realloc_take sized.within (Nat.le_of_lt (Nat.lt_of_le_of_lt (Nat.le_add_right _ _) room))
    · have fits := UInt64.not_le.mp full
      have fitsNat := UInt64.lt_iff_toNat_lt.mp fits
      simp only [mmapStringMaybeExpand, if_neg large, if_neg full]
      exact @Expanding.expanded string len memory string.str string.allocatedLen ⟨size, .inl (by omega)⟩ needed (by omega)
        sized.block rfl

inductive Outcome (string : MMAPString) (possible : Prop) (onList : List UInt8 → List UInt8 → Prop) : Bool × MMAPString → Prop
  | done {after : MMAPString} (able : possible) (valid : after.Valid) (same : onList string.contents after.contents) :
      Outcome string possible onList (true, after)
  | failed (unable : ¬ possible) : Outcome string possible onList (false, string)

theorem close_valid {str : List UInt8} {old allocatedLen : UInt64} (block : str.length = allocatedLen.toNat)
    (within : len.toNat < allocatedLen.toNat) :
    (close ⟨str, old, allocatedLen⟩ len).Valid ∧ (close ⟨str, old, allocatedLen⟩ len).contents = str.take len.toNat := by
  refine ⟨⟨by simpa only [close, List.length_set] using block, UInt64.lt_iff_toNat_lt.mpr within, ?_⟩, ?_⟩
  · exact List.getElem?_set_self (show len.toNat < str.length by omega)
  · exact List.take_set_of_le (Nat.le_refl _)

theorem Valid.truncate (valid : string.Valid) (len : UInt64) :
    Outcome string True (fun old new => new = old.take len.toNat) (true, mmapStringTruncate string len) := by
  have within := UInt64.lt_iff_toNat_lt.mp valid.within
  have least : (if len < string.len then len else string.len).toNat = min len.toNat string.len.toNat := by
    split
    · next below =>
      have := UInt64.lt_iff_toNat_lt.mp below
      omega
    · next above =>
      have := UInt64.le_iff_toNat_le.mp (UInt64.not_lt.mp above)
      omega
  obtain ⟨closed, contents⟩ := @close_valid (if len < string.len then len else string.len) string.str string.len
    string.allocatedLen valid.block (by omega)
  refine .done trivial closed ?_
  rw [mmapStringTruncate, contents, least, MMAPString.contents, List.take_take]

def Resized (size : Nat) (old new : List UInt8) : Prop := new.length = size ∧ new.take old.length = old.take size

theorem Valid.setSize (valid : string.Valid) (len : UInt64) (memory : Memory) :
    Outcome string (string.Room len.toNat memory) (Resized len.toNat) (mmapStringSetSize string len memory) := by
  have within := UInt64.lt_iff_toNat_lt.mp valid.within
  have old := valid.sized.contents_length
  by_cases beyond : len ≥ string.allocatedLen
  · have beyondNat := UInt64.le_iff_toNat_le.mp beyond
    have more : (len - string.len).toNat = len.toNat - string.len.toNat :=
      UInt64.toNat_sub_of_le _ _ (UInt64.le_iff_toNat_le.mpr (by omega))
    have total : string.len.toNat + (len - string.len).toNat = len.toNat := by omega
    have expanding := valid.sized.maybeExpand (len - string.len) memory
    simp only [mmapStringSetSize, if_pos beyond]
    cases made : mmapStringMaybeExpand string (len - string.len) memory with
    | mk done after =>
        rw [made] at expanding
        cases expanding with
        | refused unable => exact .failed (by rwa [total] at unable)
        | @expanded str allocatedLen able needed room block kept =>
            rw [total] at able room
            obtain ⟨closed, contents⟩ := @close_valid len str string.len allocatedLen block room
            refine .done able closed ⟨?_, ?_⟩
            · rw [contents, List.length_take, block]
              omega
            · rw [contents, List.take_take, old, Nat.min_eq_left (by omega), kept, List.take_of_length_le (by omega)]
  · have insideNat := UInt64.lt_iff_toNat_lt.mp (UInt64.not_le.mp beyond)
    have bounded := string.allocatedLen.toNat_lt
    simp only [mmapStringSetSize, if_neg beyond]
    obtain ⟨closed, contents⟩ := @close_valid len string.str string.len string.allocatedLen valid.block insideNat
    refine .done ⟨by omega, .inl insideNat⟩ closed ⟨?_, ?_⟩
    · rw [contents, List.length_take, valid.block]
      omega
    · rw [contents, List.take_take, old, MMAPString.contents, List.take_take, Nat.min_comm]

/-- Octets are inserted at a position that there is, and all of the size can be recorded. -/
structure Insertable (string : MMAPString) (pos : UInt64) (count : Nat) (memory : Memory) : Prop where
  inside : pos ≤ string.len
  room : string.Room (string.len.toNat + count) memory

def inserted (pos : Nat) (octets old : List UInt8) : List UInt8 := old.take pos ++ octets ++ old.drop pos

theorem insertion {str octets : List UInt8} {allocatedLen total : UInt64} (inside : pos ≤ string.len)
    (totalNat : total.toNat = string.len.toNat + octets.length) (room : total.toNat < allocatedLen.toNat)
    (block : str.length = allocatedLen.toNat) (kept : str.take string.len.toNat = string.contents) :
    let moved :=
      if pos < string.len then memmove str (pos.toNat + octets.length) pos.toNat (string.len - pos).toNat else str
    moved.length = str.length ∧ (close ⟨overwrite moved pos.toNat octets, string.len, allocatedLen⟩ total).Valid ∧
      (close ⟨overwrite moved pos.toNat octets, string.len, allocatedLen⟩ total).contents =
        inserted pos.toNat octets string.contents := by
  intro moved
  have insideNat := UInt64.le_iff_toNat_le.mp inside
  have rest : (string.len - pos).toNat = string.len.toNat - pos.toNat := UInt64.toNat_sub_of_le _ _ inside
  have same : moved = memmove str (pos.toNat + octets.length) pos.toNat (string.len - pos).toNat := by
    by_cases before : pos < string.len
    · exact if_pos before
    · have atEnd := UInt64.le_iff_toNat_le.mp (UInt64.not_lt.mp before)
      rw [rest, show string.len.toNat - pos.toNat = 0 by omega, memmove_nothing]
      exact if_neg before
  have size : moved.length = str.length := by
    rw [same]
    exact memmove_length (by omega)
  obtain ⟨closed, contents⟩ := @close_valid total (overwrite moved pos.toNat octets) string.len allocatedLen
    (by rw [overwrite_length (by omega), size, block]) room
  refine ⟨size, closed, ?_⟩
  have upTo : total.toNat = pos.toNat + octets.length + (string.len - pos).toNat := by omega
  have first : str.take pos.toNat = string.contents.take pos.toNat := by
    rw [← kept, List.take_take, Nat.min_eq_left insideNat]
  have behind : (str.drop pos.toNat).take (string.len - pos).toNat = string.contents.drop pos.toNat := by
    rw [← kept, List.drop_take, rest]
  rw [contents, upTo, same, overwrite_memmove_take (by omega), first, behind, inserted]

theorem Valid.insertLen (valid : string.Valid) (pos : UInt64) (val : Buffer) (len : UInt64) (memory : Memory)
    (given : len.toNat ≤ val.octets.length) :
    Outcome string (string.Insertable pos len.toNat memory)
      (fun old new => new = inserted pos.toNat (val.octets.take len.toNat) old) (mmapStringInsertLen string pos val len memory) := by
  have most : MY_MAXSIZE.toNat = 18446744073709551615 := rfl
  have short := valid.sized.short
  have count : (val.octets.take len.toNat).length = len.toNat := by rw [List.length_take, Nat.min_eq_left given]
  by_cases outside : pos > string.len
  · rw [mmapStringInsertLen, if_pos outside]
    exact .failed fun able => UInt64.not_lt.mpr able.inside outside
  · have inside := UInt64.not_lt.mp outside
    have insideNat := UInt64.le_iff_toNat_le.mp inside
    have notMost : ¬ string.len ≥ MY_MAXSIZE := fun full => by
      have := UInt64.le_iff_toNat_le.mp full
      omega
    rw [mmapStringInsertLen, if_neg outside, if_neg notMost]
    by_cases large : len > MY_MAXSIZE - string.len - 1
    · rw [if_pos large]
      have expanding := valid.sized.maybeExpand len memory
      rw [mmapStringMaybeExpand, if_pos large] at expanding
      cases expanding with
      | refused unable => exact .failed fun able => unable able.room
    · rw [if_neg large]
      have expanding := valid.sized.maybeExpand len memory
      cases made : mmapStringMaybeExpand string len memory with
      | mk done after =>
          rw [made] at expanding
          cases expanding with
          | refused unable => exact .failed fun able => unable able.room
          | @expanded str allocatedLen able needed room block kept =>
              have total : (string.len + len).toNat = string.len.toNat + len.toNat := by
                rw [UInt64.toNat_add]
                have := able.recorded
                omega
              have target : (pos + len).toNat = pos.toNat + len.toNat := by
                rw [UInt64.toNat_add]
                have := able.recorded
                omega
              obtain ⟨_, closed, contents⟩ := @insertion string pos str (val.octets.take len.toNat) allocatedLen
                (string.len + len) inside (by omega) (by omega) block kept
              rw [count] at closed contents
              simp only [target]
              exact .done ⟨inside, able⟩ closed contents

theorem Valid.insertC (valid : string.Valid) (pos : UInt64) (c : UInt8) (memory : Memory) :
    Outcome string (string.Insertable pos 1 memory) (fun old new => new = inserted pos.toNat [c] old)
      (mmapStringInsertC string pos c memory) := by
  have oneNat : (1 : UInt64).toNat = 1 := rfl
  have short := valid.sized.short
  by_cases outside : pos > string.len
  · rw [mmapStringInsertC, if_pos outside]
    exact .failed fun able => UInt64.not_lt.mpr able.inside outside
  · have inside := UInt64.not_lt.mp outside
    have insideNat := UInt64.le_iff_toNat_le.mp inside
    have notMost : ¬ string.len = MY_MAXSIZE := fun full => by
      have most := congrArg UInt64.toNat full
      rw [show MY_MAXSIZE.toNat = 18446744073709551615 from rfl] at most
      omega
    rw [mmapStringInsertC, if_neg outside, if_neg notMost]
    have expanding := valid.sized.maybeExpand 1 memory
    cases made : mmapStringMaybeExpand string 1 memory with
    | mk done after =>
        rw [made] at expanding
        cases expanding with
        | refused unable =>
            rw [oneNat] at unable
            exact .failed fun able => unable able.room
        | @expanded str allocatedLen able needed room block kept =>
            rw [oneNat] at able room
            have size := able.recorded
            have total : (string.len + 1).toNat = string.len.toNat + 1 := by
              rw [UInt64.toNat_add, oneNat]
              omega
            have target : (pos + 1).toNat = pos.toNat + 1 := by
              rw [UInt64.toNat_add, oneNat]
              omega
            have single : [c].length = 1 := rfl
            obtain ⟨moved, closed, contents⟩ := @insertion string pos str [c] allocatedLen (string.len + 1) inside total
              (by omega) block kept
            rw [single] at closed contents moved
            rw [overwrite_singleton (by rw [moved]; omega)] at closed contents
            simp only [target]
            exact .done ⟨inside, able⟩ closed contents

theorem Valid.erase (valid : string.Valid) (pos len : UInt64) :
    Outcome string (pos.toNat + len.toNat ≤ string.len.toNat)
      (fun old new => new = old.take pos.toNat ++ old.drop (pos.toNat + len.toNat)) (mmapStringErase string pos len) := by
  have within := UInt64.lt_iff_toNat_lt.mp valid.within
  by_cases outside : pos > string.len
  · have outsideNat := UInt64.lt_iff_toNat_lt.mp outside
    simp only [mmapStringErase, if_pos outside]
    exact .failed (by omega)
  · have inside := UInt64.not_lt.mp outside
    have insideNat := UInt64.le_iff_toNat_le.mp inside
    have rest : (string.len - pos).toNat = string.len.toNat - pos.toNat := UInt64.toNat_sub_of_le _ _ inside
    simp only [mmapStringErase, if_neg outside]
    by_cases large : len > string.len - pos
    · have largeNat := UInt64.lt_iff_toNat_lt.mp large
      simp only [if_pos large]
      exact .failed (by omega)
    · have smallNat := UInt64.le_iff_toNat_le.mp (UInt64.not_lt.mp large)
      have able : pos.toNat + len.toNat ≤ string.len.toNat := by omega
      have sum : (pos + len).toNat = pos.toNat + len.toNat := by
        rw [UInt64.toNat_add]
        have := string.len.toNat_lt
        omega
      have behind : (string.len - (pos + len)).toNat = string.len.toNat - (pos.toNat + len.toNat) := by
        rw [UInt64.toNat_sub_of_le _ _ (UInt64.le_iff_toNat_le.mpr (by omega)), sum]
      have total : (string.len - len).toNat = string.len.toNat - len.toNat :=
        UInt64.toNat_sub_of_le _ _ (UInt64.le_iff_toNat_le.mpr (by omega))
      have block := valid.block
      have same : (if pos + len < string.len then
          memmove string.str pos.toNat (pos + len).toNat (string.len - (pos + len)).toNat else string.str) =
          memmove string.str pos.toNat (pos + len).toNat (string.len - (pos + len)).toNat := by
        by_cases before : pos + len < string.len
        · exact if_pos before
        · have atEnd := UInt64.le_iff_toNat_le.mp (UInt64.not_lt.mp before)
          rw [behind, show string.len.toNat - (pos.toNat + len.toNat) = 0 by omega, memmove_nothing]
          exact if_neg before
      have tail : ((string.str.drop (pos + len).toNat).take (string.len - (pos + len)).toNat) =
          string.contents.drop (pos.toNat + len.toNat) := by
        rw [contents, List.drop_take, behind, sum]
      have tailLength : (string.contents.drop (pos.toNat + len.toNat)).length = string.len.toNat - (pos.toNat + len.toNat) := by
        rw [List.length_drop, valid.sized.contents_length]
      have size : (memmove string.str pos.toNat (pos + len).toNat (string.len - (pos + len)).toNat).length =
          string.allocatedLen.toNat := by
        rw [memmove_length (by omega), block]
      simp only [if_neg large, same]
      obtain ⟨closed, contents⟩ := @close_valid (string.len - len)
        (memmove string.str pos.toNat (pos + len).toNat (string.len - (pos + len)).toNat) string.len string.allocatedLen size
        (by omega)
      refine .done able closed ?_
      rw [contents, memmove, tail, show (string.len - len).toNat = pos.toNat + (string.contents.drop (pos.toNat + len.toNat)).length by
        omega, overwrite_take (by omega), MMAPString.contents, List.take_take, Nat.min_eq_left insideNat]

/-- A buffer has the octets that are to be read from it. -/
inductive Operation where
  | append (val : Buffer) (memory : Memory)
  | appendLen (val : Buffer) (len : UInt64) (given : len.toNat ≤ val.octets.length) (memory : Memory)
  | appendC (c : UInt8) (memory : Memory)
  | prepend (val : Buffer) (memory : Memory)
  | prependLen (val : Buffer) (len : UInt64) (given : len.toNat ≤ val.octets.length) (memory : Memory)
  | prependC (c : UInt8) (memory : Memory)
  | insert (pos : UInt64) (val : Buffer) (memory : Memory)
  | insertLen (pos : UInt64) (val : Buffer) (len : UInt64) (given : len.toNat ≤ val.octets.length) (memory : Memory)
  | insertC (pos : UInt64) (c : UInt8) (memory : Memory)
  | erase (pos len : UInt64)
  | truncate (len : UInt64)
  | setSize (len : UInt64) (memory : Memory)

namespace Operation

def run (string : MMAPString) : Operation → Bool × MMAPString
  | append val memory => mmapStringAppend string val memory
  | appendLen val len _ memory => mmapStringAppendLen string val len memory
  | appendC c memory => mmapStringAppendC string c memory
  | prepend val memory => mmapStringPrepend string val memory
  | prependLen val len _ memory => mmapStringPrependLen string val len memory
  | prependC c memory => mmapStringPrependC string c memory
  | insert pos val memory => mmapStringInsert string pos val memory
  | insertLen pos val len _ memory => mmapStringInsertLen string pos val len memory
  | insertC pos c memory => mmapStringInsertC string pos c memory
  | erase pos len => mmapStringErase string pos len
  | truncate len => (true, mmapStringTruncate string len)
  | setSize len memory => mmapStringSetSize string len memory

def OnList : Operation → List UInt8 → List UInt8 → Prop
  | append val _, old, new => new = old ++ cString val.octets
  | appendLen val len _ _, old, new => new = old ++ val.octets.take len.toNat
  | appendC c _, old, new => new = old ++ [c]
  | prepend val _, old, new => new = cString val.octets ++ old
  | prependLen val len _ _, old, new => new = val.octets.take len.toNat ++ old
  | prependC c _, old, new => new = c :: old
  | insert pos val _, old, new => new = inserted pos.toNat (cString val.octets) old
  | insertLen pos val len _ _, old, new => new = inserted pos.toNat (val.octets.take len.toNat) old
  | insertC pos c _, old, new => new = inserted pos.toNat [c] old
  | erase pos len, old, new => new = old.take pos.toNat ++ old.drop (pos.toNat + len.toNat)
  | truncate len, old, new => new = old.take len.toNat
  | setSize len _, old, new => Resized len.toNat old new

def Possible (string : MMAPString) : Operation → Prop
  | append val memory | prepend val memory => string.Room (string.len.toNat + (cString val.octets).length) memory
  | appendLen _ len _ memory | prependLen _ len _ memory => string.Room (string.len.toNat + len.toNat) memory
  | appendC _ memory | prependC _ memory => string.Room (string.len.toNat + 1) memory
  | insert pos val memory => string.Insertable pos (cString val.octets).length memory
  | insertLen pos _ len _ memory => string.Insertable pos len.toNat memory
  | insertC pos _ memory => string.Insertable pos 1 memory
  | erase pos len => pos.toNat + len.toNat ≤ string.len.toNat
  | truncate _ => True
  | setSize len memory => string.Room len.toNat memory

end Operation

theorem strlen_toNat (val : Buffer) : (strlen val).toNat = (cString val.octets).length := by
  have upTo : (cString val.octets).length ≤ val.octets.length := (List.takeWhile_prefix _).length_le
  have bounded := val.bounded
  rw [strlen, UInt64.toNat_ofNat', Nat.mod_eq_of_lt (by omega)]

theorem take_strlen (val : Buffer) : val.octets.take (strlen val).toNat = cString val.octets := by
  rw [strlen_toNat]
  exact (List.prefix_iff_eq_take.mp (List.takeWhile_prefix _)).symm

theorem strlen_given (val : Buffer) : (strlen val).toNat ≤ val.octets.length := by
  rw [strlen_toNat]
  exact (List.takeWhile_prefix _).length_le

theorem Outcome.mono {possible possible' : Prop} {onList onList' : List UInt8 → List UInt8 → Prop} {result : Bool × MMAPString}
    (outcome : Outcome string possible onList result) (able : possible ↔ possible')
    (same : ∀ new, onList string.contents new → onList' string.contents new) : Outcome string possible' onList' result := by
  cases outcome with
  | done possible valid follows => exact .done (able.mp possible) valid (same _ follows)
  | failed unable => exact .failed fun possible => unable (able.mpr possible)

theorem insertable_end {count : Nat} :
    string.Insertable string.len count memory ↔ string.Room (string.len.toNat + count) memory :=
  ⟨fun able => able.room, fun room => ⟨UInt64.le_refl _, room⟩⟩

theorem insertable_start {count : Nat} : string.Insertable 0 count memory ↔ string.Room (string.len.toNat + count) memory :=
  ⟨fun able => able.room, fun room => ⟨UInt64.zero_le, room⟩⟩

theorem Valid.inserted_end (valid : string.Valid) (octets : List UInt8) :
    inserted string.len.toNat octets string.contents = string.contents ++ octets := by
  have length := valid.sized.contents_length
  rw [inserted, List.take_of_length_le (by omega), List.drop_of_length_le (by omega), List.append_nil]

theorem Valid.outcome (valid : string.Valid) (operation : Operation) :
    Outcome string (operation.Possible string) operation.OnList (operation.run string) := by
  cases operation with
  | append val memory =>
      refine (valid.insertLen string.len val (strlen val) memory (strlen_given val)).mono ?_ fun new same => ?_
      · rw [insertable_end, strlen_toNat]
        rfl
      · rw [same, take_strlen, valid.inserted_end]
        rfl
  | appendLen val len given memory =>
      refine (valid.insertLen string.len val len memory given).mono insertable_end fun new same => ?_
      rw [same, valid.inserted_end]
      rfl
  | appendC c memory =>
      refine (valid.insertC string.len c memory).mono insertable_end fun new same => ?_
      rw [same, valid.inserted_end]
      rfl
  | prepend val memory =>
      refine (valid.insertLen 0 val (strlen val) memory (strlen_given val)).mono ?_ fun new same => ?_
      · rw [insertable_start, strlen_toNat]
        rfl
      · rw [same, take_strlen]
        rfl
  | prependLen val len given memory =>
      exact (valid.insertLen 0 val len memory given).mono insertable_start fun new same => same
  | prependC c memory => exact (valid.insertC 0 c memory).mono insertable_start fun new same => same
  | insert pos val memory =>
      refine (valid.insertLen pos val (strlen val) memory (strlen_given val)).mono ?_ fun new same => ?_
      · rw [strlen_toNat]
        rfl
      · rw [same, take_strlen]
        rfl
  | insertLen pos val len given memory => exact valid.insertLen pos val len memory given
  | insertC pos c memory => exact valid.insertC pos c memory
  | erase pos len => exact valid.erase pos len
  | truncate len => exact valid.truncate len
  | setSize len memory => exact valid.setSize len memory

theorem mmapStringSizedNew_valid {dflSize : UInt64} {header : Bool}
    (created : mmapStringSizedNew dflSize header memory = some string) : string.Valid ∧ string.contents = [] := by
  rw [mmapStringSizedNew] at created
  cases header with
  | false => cases created
  | true =>
      have blank : (⟨[], 0, 0⟩ : MMAPString).Sized := ⟨rfl, Nat.le_refl _, by simp⟩
      have expanding := blank.maybeExpand (if dflSize > 2 then dflSize else 2) memory
      simp only [↓reduceIte] at created
      cases made : mmapStringMaybeExpand ⟨[], 0, 0⟩ (if dflSize > 2 then dflSize else 2) memory with
      | mk done after =>
          rw [made] at expanding created
          cases expanding with
          | refused unable => cases created
          | @expanded str allocatedLen able needed room block kept =>
              cases created
              exact close_valid block (show (0 : UInt64).toNat < allocatedLen.toNat by
                rw [show (0 : UInt64).toNat = 0 from rfl]
                omega)

def Operation.step (string : MMAPString) (operation : Operation) : MMAPString := (operation.run string).2

/-- A string between two calls, and how any operation on it ends: it succeeds exactly where the size can be recorded and
there is memory, then the octets are those of the same operation on the list; and a failing one changes nothing. -/
structure Refined (string : MMAPString) : Prop where
  within : string.len < string.allocatedLen
  block : string.str.length = string.allocatedLen.toNat
  length : string.contents.length = string.len.toNat
  terminated : string.str[string.len.toNat]? = some 0
  outcome (operation : Operation) : Outcome string (operation.Possible string) operation.OnList (operation.run string)

/-- A new string is empty, and every string that a run of operations makes of it follows the operations on lists. -/
theorem mmapString_refines_list {dflSize : UInt64} {header : Bool}
    (created : mmapStringSizedNew dflSize header memory = some string) (operations : List Operation) :
    string.contents = [] ∧ Refined (operations.foldl Operation.step string) := by
  obtain ⟨valid, empty⟩ := mmapStringSizedNew_valid created
  refine ⟨empty, ?_⟩
  have reached : (operations.foldl Operation.step string).Valid := by
    refine run_invariant ?_ valid
    intro string operation valid
    have ends := valid.outcome operation
    rw [Operation.step]
    cases result : operation.run string with
    | mk done after =>
        rw [result] at ends
        cases ends with
        | done able after same => exact after
        | failed unable => exact valid
  exact ⟨reached.within, reached.block, reached.sized.contents_length, reached.terminated, reached.outcome⟩

theorem mmapString_refines_list_new :
    ∃ string, mmapStringSizedNew 2 true (some fun _ => 7) = some string ∧ string.contents = [] ∧
      Refined ([.appendC 65 none, .prependC 66 none, .erase 0 1].foldl Operation.step string) := by
  have made : (mmapStringSizedNew 2 true (some fun _ => 7)).isSome = true := by decide
  obtain ⟨string, created⟩ := Option.isSome_iff_exists.mp made
  exact ⟨string, created, mmapString_refines_list created _⟩

end MMAPString

end Etpan.DataTypes
