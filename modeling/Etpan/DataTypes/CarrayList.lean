import Etpan.DataTypes.Carray

namespace Etpan.DataTypes

open Etpan.Data

/-! Every run of operations on an array follows the same operations on a list. -/

namespace Carray

variable {α : Type}

def Doubled (max n : UInt32) : Prop := ∃ k, n.toNat = max.toNat * 2 ^ (k + 1)

def Grown (max newSize : UInt32) : Option UInt32 → Prop
  | none => ∃ n, Doubled max n ∧ n ≤ newSize ∧ 2 ^ 31 ≤ n.toNat
  | some n => Doubled max n ∧ newSize < n

theorem Doubled.double {max n : UInt32} (doubled : Doubled max n) (small : ¬ n > UINT_MAX / 2) :
    Doubled max (n * 2) ∧ (n * 2).toNat = n.toNat * 2 := by
  have half : (UINT_MAX / 2).toNat = 2147483647 := rfl
  have bound : n.toNat ≤ 2147483647 := by
    have := UInt32.le_iff_toNat_le.mp (UInt32.not_lt.mp small)
    omega
  have exact : (n * 2).toNat = n.toNat * 2 := by
    rw [UInt32.toNat_mul, show (2 : UInt32).toNat = 2 from rfl]
    omega
  obtain ⟨k, power⟩ := doubled
  refine ⟨⟨k + 1, ?_⟩, exact⟩
  rw [exact, power, Nat.pow_succ _ (k + 1), Nat.mul_assoc]

theorem Doubled.first {max : UInt32} (small : ¬ max > UINT_MAX / 2) : Doubled max (max * 2) := by
  have half : (UINT_MAX / 2).toNat = 2147483647 := rfl
  have bound := UInt32.le_iff_toNat_le.mp (UInt32.not_lt.mp small)
  refine ⟨0, ?_⟩
  rw [UInt32.toNat_mul, show (2 : UInt32).toNat = 2 from rfl]
  omega

theorem growRound_ends {max newSize : UInt32} (positive : 0 < max.toNat) (n : UInt32) (doubled : Doubled max n) :
    Round (Doubled max) (Grown max newSize) (fun n => 32 - Nat.log 2 n.toNat) n (growRound newSize n) := by
  have more : 0 < n.toNat := by
    obtain ⟨k, power⟩ := doubled
    rw [power]
    exact Nat.mul_pos positive (Nat.two_pow_pos _)
  by_cases reached : n ≤ newSize
  · by_cases large : n > UINT_MAX / 2
    · simp only [growRound, if_pos reached, if_pos large]
      have half : (UINT_MAX / 2).toNat = 2147483647 := rfl
      have above := UInt32.lt_iff_toNat_lt.mp large
      exact .left ⟨n, doubled, reached, by omega⟩
    · simp only [growRound, if_pos reached, if_neg large]
      obtain ⟨next, exact⟩ := doubled.double large
      have below := (n * 2).toNat_lt
      exact .next next (by simpa only [exact] using log_double more (by omega))
  · simp only [growRound, if_neg reached]
    exact .left ⟨doubled, UInt32.not_le.mp reached⟩

theorem growLoop_grown {max newSize : UInt32} (positive : 0 < max.toNat) (small : ¬ max > UINT_MAX / 2) :
    Grown max newSize (growLoop newSize (max * 2)) := by
  obtain ⟨result, ended, grown⟩ := loop_ends (growRound_ends positive) (Doubled.first small)
    (show 32 - Nat.log 2 (max * 2).toNat < 33 by omega)
  rw [growLoop, ended]
  exact grown

theorem not_sizeMulOverflows (count : UInt32) : sizeMulOverflows count pointerSize = false := by
  have most : ((0 - 1 : UInt64) / pointerSize).toNat = 2305843009213693951 := rfl
  have small := count.toNat_lt
  rw [sizeMulOverflows, decide_eq_false_iff_not, UInt64.not_lt, UInt64.le_iff_toNat_le, UInt32.toNat_toUInt64]
  omega

/-- There is room, or a capacity in 32 bits that makes it and memory for that. -/
def Room (array : Carray α) (newSize : UInt32) (slots : Option (Slots α)) : Prop :=
  newSize ≤ array.max ∨
    slots.isSome ∧ ∃ k, newSize.toNat < array.max.toNat * 2 ^ (k + 1) ∧ array.max.toNat * 2 ^ (k + 1) < 2 ^ 32

/-- What holds of an array between two calls. -/
structure Valid (array : Carray α) : Prop where
  fits : array.len ≤ array.max
  nonempty : 0 < array.max.toNat
  allocated : array.array.length = array.max.toNat

def contents (array : Carray α) : List (Option α) := array.array.take array.len.toNat

variable {array : Carray α} {newSize indx : UInt32} {slots : Option (Slots α)} {data : Option α}

theorem Valid.within (valid : array.Valid) : array.len.toNat ≤ array.array.length := by
  rw [valid.allocated]
  exact UInt32.le_iff_toNat_le.mp valid.fits

theorem Valid.contents_length (valid : array.Valid) : array.contents.length = array.len.toNat := by
  rw [contents, List.length_take, Nat.min_eq_left valid.within]

inductive Growing (array : Carray α) (newSize : UInt32) (slots : Option (Slots α)) : Option (Carray α) → Prop
  | refused (full : ¬ array.Room newSize slots) : Growing array newSize slots none
  | grown {memory : List (Option α)} {max : UInt32} (room : array.Room newSize slots) (within : newSize ≤ max)
      (capacity : ∃ k, max.toNat = array.max.toNat * 2 ^ k) (allocated : memory.length = max.toNat)
      (kept : memory.take array.len.toNat = array.contents) :
      Growing array newSize slots (some { array with array := memory, max := max })

theorem Valid.grow_growing (valid : array.Valid) (newSize : UInt32) (slots : Option (Slots α)) :
    Growing array newSize slots (grow array newSize slots) := by
  by_cases larger : newSize > array.max
  · by_cases huge : array.max > UINT_MAX / 2
    · simp only [grow, if_pos larger, if_pos huge]
      refine .refused ?_
      rintro (fits | ⟨_, k, _, bounded⟩)
      · exact absurd larger (UInt32.not_lt.mpr fits)
      · have half : (UINT_MAX / 2).toNat = 2147483647 := rfl
        have above := UInt32.lt_iff_toNat_lt.mp huge
        have twice : array.max.toNat * 2 ^ 1 ≤ array.max.toNat * 2 ^ (k + 1) :=
          Nat.mul_le_mul_left _ (Nat.pow_le_pow_right (by omega) (Nat.le_add_left 1 k))
        have doubled := Nat.lt_of_le_of_lt twice bounded
        omega
    · simp only [grow, if_pos larger, if_neg huge]
      have ends := @growLoop_grown array.max newSize valid.nonempty huge
      cases found : growLoop newSize (array.max * 2) with
      | none =>
          rw [found] at ends
          obtain ⟨n, ⟨k, power⟩, reached, large⟩ := ends
          have upTo := UInt32.le_iff_toNat_le.mp reached
          refine .refused ?_
          rintro (fits | ⟨_, k', above, bounded⟩)
          · exact absurd larger (UInt32.not_lt.mpr fits)
          · have further : k + 1 + 1 ≤ k' + 1 := by
              by_contra closer
              have atMost : array.max.toNat * 2 ^ (k' + 1) ≤ array.max.toNat * 2 ^ (k + 1) :=
                Nat.mul_le_mul_left _ (Nat.pow_le_pow_right (by omega) (by omega))
              omega
            have atLeast : array.max.toNat * 2 ^ (k + 1 + 1) ≤ array.max.toNat * 2 ^ (k' + 1) :=
              Nat.mul_le_mul_left _ (Nat.pow_le_pow_right (by omega) further)
            rw [Nat.pow_succ, ← Nat.mul_assoc, ← power] at atLeast
            omega
      | some n =>
          rw [found] at ends
          obtain ⟨⟨k, power⟩, above⟩ := ends
          simp only [Option.bind_some, not_sizeMulOverflows, Bool.false_eq_true, ↓reduceIte]
          have aboveNat := UInt32.lt_iff_toNat_lt.mp above
          have bounded := n.toNat_lt
          cases slots with
          | none =>
              refine .refused ?_
              rintro (fits | ⟨memory, _⟩)
              · exact absurd larger (UInt32.not_lt.mpr fits)
              · cases memory
          | some stray =>
              have oldWithin : array.len.toNat ≤ n.toNat := by
                have := UInt32.le_iff_toNat_le.mp valid.fits
                have := UInt32.lt_iff_toNat_lt.mp larger
                omega
              exact .grown (.inr ⟨rfl, k, by omega, by omega⟩) (UInt32.le_of_lt above) ⟨k + 1, power⟩
                (realloc_length _ _ _) (realloc_take valid.within oldWithin)
  · have fits := UInt32.not_lt.mp larger
    simp only [grow, if_neg larger]
    exact @Growing.grown α array newSize slots array.array array.max (.inl fits) fits ⟨0, by omega⟩ valid.allocated rfl

/-- The list of a new size: cut off, or filled up with NULL. -/
def resized (size : Nat) (list : List (Option α)) : List (Option α) :=
  list.take size ++ List.replicate (size - list.length) none

/-- How an operation ends: it does what it does on a list, or it fails and changes nothing. -/
inductive Outcome (array : Carray α) (possible : Prop) (onList : List (Option α) → List (Option α)) :
    Bool × Carray α → Prop
  | done {after : Carray α} (able : possible) (valid : after.Valid) (same : after.contents = onList array.contents)
      (capacity : ∃ k, after.max.toNat = array.max.toNat * 2 ^ k) : Outcome array possible onList (true, after)
  | failed (unable : ¬ possible) : Outcome array possible onList (false, array)

theorem Valid.setSize_outcome (valid : array.Valid) (newSize : UInt32) (slots : Option (Slots α)) :
    Outcome array (array.Room newSize slots) (resized newSize.toNat) (carraySetSize array newSize slots) := by
  have growing := valid.grow_growing newSize slots
  have lengths := valid.contents_length
  cases made : grow array newSize slots with
  | none =>
      rw [made] at growing
      cases growing with
      | refused full => simpa only [carraySetSize, made] using Outcome.failed full
  | some grown =>
      rw [made] at growing
      cases growing with
      | @grown memory max room within capacity allocated kept =>
          have withinNat := UInt32.le_iff_toNat_le.mp within
          have keptLength := congrArg List.length kept
          rw [lengths, List.length_take] at keptLength
          simp only [carraySetSize, made]
          by_cases larger : newSize > array.len
          · have largerNat := UInt32.lt_iff_toNat_lt.mp larger
            have difference : (newSize - array.len).toNat = newSize.toNat - array.len.toNat :=
              UInt32.toNat_sub_of_le _ _ (UInt32.le_of_lt larger)
            have sum : newSize.toNat = array.len.toNat + (List.replicate (newSize - array.len).toNat (none : Option α)).length := by
              rw [List.length_replicate]
              omega
            simp only [if_pos larger]
            refine .done room ⟨within, show 0 < max.toNat by omega, ?_⟩ ?_ capacity
            · exact (overwrite_length (by omega)).trans allocated
            · calc (overwrite memory array.len.toNat (List.replicate (newSize - array.len).toNat none)).take newSize.toNat
                  = memory.take array.len.toNat ++ List.replicate (newSize - array.len).toNat none := by
                    conv_lhs => rw [sum]
                    exact overwrite_take (by omega)
                _ = resized newSize.toNat array.contents := by
                    rw [kept, resized, List.take_of_length_le (by omega), lengths, difference]
          · have smallerNat := UInt32.le_iff_toNat_le.mp (UInt32.not_lt.mp larger)
            simp only [if_neg larger]
            refine .done room ⟨within, ?_, allocated⟩ ?_ capacity
            · have positive := valid.nonempty
              obtain ⟨k, power⟩ := capacity
              rw [power]
              exact Nat.mul_pos positive (Nat.two_pow_pos k)
            · change memory.take newSize.toNat = _
              rw [resized, ← kept, List.take_take, Nat.min_eq_left smallerNat, List.length_take,
                show newSize.toNat - min array.len.toNat memory.length = 0 by omega, List.replicate_zero, List.append_nil]

def Addable (array : Carray α) (slots : Option (Slots α)) : Prop :=
  array.len ≠ UINT_MAX ∧ array.Room (array.len + 1) slots

theorem len_succ (notMost : array.len ≠ UINT_MAX) : (array.len + 1).toNat = array.len.toNat + 1 := by
  have different : array.len.toNat ≠ 4294967295 := fun same => notMost (UInt32.toNat_inj.mp same)
  have bounded := array.len.toNat_lt
  rw [UInt32.toNat_add, show (1 : UInt32).toNat = 1 from rfl]
  omega

theorem Valid.add_outcome (valid : array.Valid) (data : Option α) (slots : Option (Slots α)) :
    Outcome array (array.Addable slots) (· ++ [data])
      ((carrayAdd array data slots).1.isSome, (carrayAdd array data slots).2) := by
  by_cases most : array.len = UINT_MAX
  · simp only [carrayAdd, if_pos most]
    exact .failed fun able => able.1 most
  · have sized := valid.setSize_outcome (array.len + 1) slots
    have next := len_succ most
    have lengths := valid.contents_length
    simp only [carrayAdd, if_neg most]
    cases outcome : carraySetSize array (array.len + 1) slots with
    | mk status after =>
        rw [outcome] at sized
        cases sized with
        | failed full => exact .failed fun able => full able.2
        | done room afterValid same capacity =>
            have size : after.contents.length = array.len.toNat + 1 := by
              rw [same, resized, List.length_append, List.length_take, List.length_replicate]
              omega
            have len : after.len = array.len + 1 := by
              rw [afterValid.contents_length, ← next] at size
              exact UInt32.toNat_inj.mp size
            have last : (after.len - 1).toNat = array.len.toNat := by rw [len, UInt32.add_sub_cancel]
            refine .done ⟨most, room⟩ ⟨afterValid.fits, afterValid.nonempty, ?_⟩ ?_ capacity
            · simpa only [List.length_set] using afterValid.allocated
            · change (after.array.set (after.len - 1).toNat data).take after.len.toNat = _
              rw [List.take_set, last]
              change (after.contents).set _ _ = _
              rw [same, resized, List.take_of_length_le (by omega), lengths, next, Nat.add_sub_cancel_left,
                List.set_append_right _ _ (by omega), lengths, Nat.sub_self]
              rfl

theorem Valid.deleteFast_outcome (valid : array.Valid) (indx : UInt32) :
    Outcome array (indx < array.len) (fun list => list.set indx.toNat none) (carrayDeleteFast array indx) := by
  by_cases beyond : indx ≥ array.len
  · simpa only [carrayDeleteFast, if_pos beyond] using Outcome.failed (UInt32.not_lt.mpr beyond)
  · simp only [carrayDeleteFast, if_neg beyond]
    refine .done (UInt32.not_le.mp beyond) ⟨valid.fits, valid.nonempty, ?_⟩ ?_ ⟨0, (Nat.mul_one _).symm⟩
    · simpa only [List.length_set] using valid.allocated
    · exact List.take_set

theorem len_pred (inside : indx < array.len) :
    (array.len - 1).toNat = array.len.toNat - 1 ∧ indx.toNat ≤ (array.len - 1).toNat := by
  have insideNat := UInt32.lt_iff_toNat_lt.mp inside
  have bounded := array.len.toNat_lt
  have pred : (array.len - 1).toNat = array.len.toNat - 1 :=
    UInt32.toNat_sub_of_le _ _ (UInt32.le_iff_toNat_le.mpr (by rw [show (1 : UInt32).toNat = 1 from rfl]; omega))
  exact ⟨pred, by omega⟩

theorem Valid.shorter {memory : List (Option α)} (valid : array.Valid) (inside : indx < array.len)
    (size : memory.length = array.array.length) : (⟨memory, array.len - 1, array.max⟩ : Carray α).Valid := by
  refine ⟨UInt32.le_iff_toNat_le.mpr ?_, valid.nonempty, size.trans valid.allocated⟩
  have fits := UInt32.le_iff_toNat_le.mp valid.fits
  have pred := (len_pred inside).1
  simp only
  omega

def moveLast (indx : Nat) (list : List (Option α)) : List (Option α) :=
  (list.set indx list.getLast?.join).dropLast

theorem Valid.delete_outcome (valid : array.Valid) (indx : UInt32) :
    Outcome array (indx < array.len) (moveLast indx.toNat) (carrayDelete array indx) := by
  by_cases beyond : indx ≥ array.len
  · simpa only [carrayDelete, if_pos beyond] using Outcome.failed (UInt32.not_lt.mpr beyond)
  · have inside := UInt32.not_le.mp beyond
    obtain ⟨pred, upTo⟩ := len_pred inside
    have within := valid.within
    have lengths := valid.contents_length
    have insideNat := UInt32.lt_iff_toNat_lt.mp inside
    have last : array.contents.getLast?.join = array.array.getD (array.len - 1).toNat none := by
      rw [List.getLast?_eq_getElem?, lengths, pred, contents, List.getElem?_take_of_lt (by omega),
        List.getD_eq_getElem?_getD, List.getElem?_eq_getElem (by omega)]
      rfl
    have moved : moveLast indx.toNat array.contents =
        (array.array.set indx.toNat (array.array.getD (array.len - 1).toNat none)).take (array.len - 1).toNat := by
      rw [moveLast, last, List.dropLast_eq_take, List.length_set, lengths, contents, ← List.take_set, List.take_take, pred,
        Nat.min_eq_left (Nat.sub_le _ _)]
    simp only [carrayDelete, if_neg beyond]
    refine .done inside (valid.shorter inside ?_) ?_ ⟨0, (Nat.mul_one _).symm⟩
    · split
      · exact List.length_set
      · rfl
    · rw [moved]
      by_cases atEnd : indx = array.len - 1
      · simp only [contents, if_neg (not_not.mpr atEnd)]
        rw [List.take_set, atEnd, List.set_eq_of_length_le (by rw [List.length_take]; omega)]
      · simp only [contents, if_pos atEnd]

theorem Valid.deleteSlow_outcome (valid : array.Valid) (indx : UInt32) :
    Outcome array (indx < array.len) (fun list => list.eraseIdx indx.toNat) (carrayDeleteSlow array indx) := by
  by_cases beyond : indx ≥ array.len
  · simpa only [carrayDeleteSlow, if_pos beyond] using Outcome.failed (UInt32.not_lt.mpr beyond)
  · have inside := UInt32.not_le.mp beyond
    obtain ⟨pred, upTo⟩ := len_pred inside
    have within := valid.within
    have insideNat := UInt32.lt_iff_toNat_lt.mp inside
    have difference : (array.len - 1 - indx).toNat = array.len.toNat - 1 - indx.toNat := by
      rw [UInt32.toNat_sub_of_le _ _ (UInt32.le_iff_toNat_le.mpr upTo), pred]
    have block : ((array.array.drop (indx.toNat + 1)).take (array.len - 1 - indx).toNat).length =
        array.len.toNat - 1 - indx.toNat := by
      rw [List.length_take, List.length_drop, difference]
      omega
    have erased : array.contents.eraseIdx indx.toNat =
        array.array.take indx.toNat ++ (array.array.drop (indx.toNat + 1)).take (array.len - 1 - indx).toNat := by
      rw [List.eraseIdx_eq_take_drop_succ, contents, List.take_take, Nat.min_eq_left (Nat.le_of_lt insideNat), List.drop_take,
        difference, Nat.sub_add_eq, Nat.sub_right_comm]
    simp only [carrayDeleteSlow, if_neg beyond]
    refine .done inside (valid.shorter inside ?_) ?_ ⟨0, (Nat.mul_one _).symm⟩
    · split
      · exact overwrite_length (by omega)
      · rfl
    · rw [erased]
      by_cases atEnd : indx = array.len - 1
      · simp only [contents, if_neg (not_not.mpr atEnd)]
        rw [difference, ← atEnd, show array.len.toNat - 1 - indx.toNat = 0 by rw [atEnd]; omega, List.take_zero, List.append_nil]
      · simp only [contents, if_pos atEnd]
        have upToEnd : (array.len - 1).toNat = indx.toNat +
            ((array.array.drop (indx.toNat + 1)).take (array.len - 1 - indx).toNat).length := by omega
        conv_lhs => rw [upToEnd]
        exact overwrite_take (by omega)

inductive Operation (α : Type) where
  | add (data : Option α) (slots : Option (Slots α))
  | setSize (newSize : UInt32) (slots : Option (Slots α))
  | deleteFast (indx : UInt32)
  | delete (indx : UInt32)
  | deleteSlow (indx : UInt32)

namespace Operation

def run (array : Carray α) : Operation α → Bool × Carray α
  | add data slots => ((carrayAdd array data slots).1.isSome, (carrayAdd array data slots).2)
  | setSize newSize slots => carraySetSize array newSize slots
  | deleteFast indx => carrayDeleteFast array indx
  | delete indx => carrayDelete array indx
  | deleteSlow indx => carrayDeleteSlow array indx

def onList : Operation α → List (Option α) → List (Option α)
  | add data _, list => list ++ [data]
  | setSize newSize _, list => resized newSize.toNat list
  | deleteFast indx, list => list.set indx.toNat none
  | delete indx, list => moveLast indx.toNat list
  | deleteSlow indx, list => list.eraseIdx indx.toNat

def Possible (array : Carray α) : Operation α → Prop
  | add _ slots => array.Addable slots
  | setSize newSize slots => array.Room newSize slots
  | deleteFast indx | delete indx | deleteSlow indx => indx < array.len

end Operation

theorem Valid.outcome (valid : array.Valid) (operation : Operation α) :
    Outcome array (operation.Possible array) operation.onList (operation.run array) := by
  cases operation with
  | add data slots => exact valid.add_outcome data slots
  | setSize newSize slots => exact valid.setSize_outcome newSize slots
  | deleteFast indx => exact valid.deleteFast_outcome indx
  | delete indx => exact valid.delete_outcome indx
  | deleteSlow indx => exact valid.deleteSlow_outcome indx

structure Tracked (α : Type) where
  array : Carray α
  list : List (Option α)

def Tracked.step (tracked : Tracked α) (operation : Operation α) : Tracked α :=
  let (done, after) := operation.run tracked.array
  ⟨after, if done then operation.onList tracked.list else tracked.list⟩

structure Tracked.Holds (tracked : Tracked α) : Prop where
  valid : tracked.array.Valid
  same : tracked.array.contents = tracked.list

theorem Tracked.Holds.step {tracked : Tracked α} (holds : tracked.Holds) (operation : Operation α) :
    (tracked.step operation).Holds := by
  have ends := holds.valid.outcome operation
  rw [Tracked.step]
  cases outcome : operation.run tracked.array with
  | mk status after =>
      rw [outcome] at ends
      cases ends with
      | done able afterValid follows capacity => exact ⟨afterValid, by rw [follows, holds.same]; rfl⟩
      | failed unable => exact holds

theorem carrayNew_valid {initsize : UInt32} {header : Bool} (created : carrayNew initsize header slots = some array) :
    array.Valid ∧ array.contents = [] := by
  rw [carrayNew] at created
  cases header with
  | false => cases created
  | true =>
      simp only [↓reduceIte, not_sizeMulOverflows, Bool.false_eq_true] at created
      cases slots with
      | none => cases created
      | some stray =>
          cases created
          refine ⟨⟨UInt32.le_iff_toNat_le.mpr (Nat.zero_le _), ?_, realloc_length _ _ _⟩, rfl⟩
          have least : MIN_ARRAY_SIZE.toNat = 4 := rfl
          split
          · simp only [least]
            omega
          · rename_i larger
            have := UInt32.le_iff_toNat_le.mp (UInt32.not_lt.mp larger)
            simp only
            omega

/-- After any run from a new array the contents are those of the list; and any further operation ends as it should:
it succeeds exactly where it can, a failing one changes nothing, and the capacity only doubles, below 2^32. -/
theorem carray_refines_list {initsize : UInt32} {header : Bool} (created : carrayNew initsize header slots = some array)
    (operations : List (Operation α)) :
    let reached := operations.foldl Tracked.step ⟨array, []⟩
    reached.array.len ≤ reached.array.max ∧ reached.array.array.length = reached.array.max.toNat ∧
      reached.array.array.take reached.array.len.toNat = reached.list ∧
        ∀ operation : Operation α,
          Outcome reached.array (operation.Possible reached.array) operation.onList (operation.run reached.array) := by
  intro reached
  obtain ⟨valid, empty⟩ := carrayNew_valid created
  have holds : reached.Holds := run_invariant (fun _ operation start => start.step operation) ⟨valid, empty⟩
  exact ⟨holds.valid.fits, holds.valid.allocated, holds.same, holds.valid.outcome⟩

theorem carray_refines_list_filled :
    let added : List (Operation Nat) := [.add (some 7) none, .add (some 8) none, .deleteFast 0, .setSize 9 (some fun _ => none)]
    let reached := added.foldl Tracked.step ⟨⟨realloc [] (fun _ => none) 4, 0, 4⟩, []⟩
    reached.array.len ≤ reached.array.max ∧ reached.array.array.length = reached.array.max.toNat ∧
      reached.array.array.take reached.array.len.toNat = reached.list ∧
        ∀ operation : Operation Nat,
          Outcome reached.array (operation.Possible reached.array) operation.onList (operation.run reached.array) :=
  carray_refines_list (show carrayNew 0 true (some fun _ => none) = _ from rfl) _

end Carray

end Etpan.DataTypes
