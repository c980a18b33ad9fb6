import Etpan.DataTypes.CarrayList
import Etpan.Pop3.Session

namespace Etpan.Pop3

open Etpan.Data Etpan.Stream Etpan.DataTypes Carray

/-! The table of messages as a list of slots. -/

variable {msgTab after : Carray MsgInfo} {stray : Slots MsgInfo}

theorem carraySet_contents (msgTab : Carray MsgInfo) (indx : UInt32) (msg : Option MsgInfo) :
    (carraySet msgTab indx msg).contents = msgTab.contents.set indx.toNat msg := List.take_set

theorem carraySet_valid (valid : msgTab.Valid) (indx : UInt32) (msg : Option MsgInfo) :
    (carraySet msgTab indx msg).Valid :=
  ⟨valid.fits, valid.nonempty, List.length_set.trans valid.allocated⟩

def Unmarked (msgTab : Carray MsgInfo) : Prop := ∀ msg, some msg ∈ msgTab.contents → msg.msgDeleted = false

theorem Unmarked.set {indx : UInt32} {msg : MsgInfo} (unmarked : Unmarked msgTab) (fresh : msg.msgDeleted = false) :
    Unmarked (carraySet msgTab indx (some msg)) := by
  intro other member
  rw [carraySet_contents] at member
  rcases List.mem_or_eq_of_mem_set member with old | new
  · exact unmarked other old
  · cases new
    exact fresh

structure Fresh (msgTab : Carray MsgInfo) : Prop where
  valid : msgTab.Valid
  unmarked : Unmarked msgTab

theorem carrayNew_fresh (created : carrayNew 128 true (some stray) = some msgTab) : Fresh msgTab := by
  obtain ⟨valid, empty⟩ := carrayNew_valid created
  exact ⟨valid, by simp [Unmarked, empty]⟩

theorem listLine_fresh (fresh : Fresh msgTab) {line : Line} (listed : listLine stray msgTab line = some after) :
    Fresh after := by
  unfold listLine at listed
  split at listed
  · cases listed
    exact fresh
  · next indx rest parsed =>
      split at listed
      · cases listed
        exact fresh
      · next text spaced =>
          by_cases smaller : msgTab.len < indx
          · have sized := fresh.valid.setSize_outcome indx (some stray)
            simp only [if_pos smaller] at listed
            cases made : carraySetSize msgTab indx (some stray) with
            | mk done grown =>
                rw [made] at sized listed
                cases sized with
                | failed unable => cases listed
                | done able valid same capacity =>
                    simp only [↓reduceIte, Option.some.injEq] at listed
                    subst listed
                    refine ⟨carraySet_valid valid _ _, Unmarked.set ?_ rfl⟩
                    intro msg member
                    rw [same, resized, List.mem_append] at member
                    rcases member with old | filled
                    · exact fresh.unmarked msg (List.mem_of_mem_take old)
                    · cases List.eq_of_mem_replicate filled
          · simp only [if_neg smaller, ↓reduceIte, Option.some.injEq] at listed
            subst listed
            exact ⟨carraySet_valid fresh.valid _ _, fresh.unmarked.set rfl⟩

theorem carrayGet_contents {indx : UInt32} (inside : indx < msgTab.len) :
    carrayGet msgTab indx = (msgTab.contents[indx.toNat]?).join := by
  rw [carrayGet, contents, List.getElem?_take_of_lt (UInt32.lt_iff_toNat_lt.mp inside), List.getD_eq_getElem?_getD]
  cases msgTab.array[indx.toNat]? <;> rfl

theorem carrayGet_mem {indx : UInt32} {msg : MsgInfo} (inside : indx < msgTab.len) (got : carrayGet msgTab indx = some msg) :
    msgTab.contents[indx.toNat]? = some (some msg) := by
  rw [carrayGet_contents inside] at got
  exact Option.join_eq_some_iff.mp got

theorem slot_inside {indx : UInt32} (positive : indx ≠ 0) (bounded : ¬ indx > msgTab.len) : indx - 1 < msgTab.len := by
  have positiveNat : 0 < indx.toNat := by
    rcases Nat.eq_zero_or_pos indx.toNat with zero | positive'
    · exact absurd (UInt32.toNat_inj.mp zero) positive
    · exact positive'
  have one : (1 : UInt32).toNat = 1 := rfl
  have pred : (indx - 1).toNat = indx.toNat - 1 :=
    UInt32.toNat_sub_of_le _ _ (UInt32.le_iff_toNat_le.mpr (by omega))
  have within := UInt32.le_iff_toNat_le.mp (UInt32.not_lt.mp bounded)
  rw [UInt32.lt_iff_toNat_lt]
  omega

theorem msgIndexParse_pos {line rest : Line} {indx : UInt32} (parsed : msgIndexParse line = some (indx, rest)) : indx ≠ 0 := by
  unfold msgIndexParse at parsed
  split at parsed
  · cases parsed
  · split at parsed
    · cases parsed
    · next value rest' number =>
        split at parsed
        · cases parsed
        · next bounds =>
            have most : UINT_MAX.toNat = 4294967295 := rfl
            simp only [Option.some.injEq, Prod.mk.injEq] at parsed
            rintro rfl
            have zero := congrArg UInt32.toNat parsed.1
            rw [UInt32.toNat_ofNat', Nat.mod_eq_of_lt (by omega)] at zero
            exact bounds (.inl (by simp [zero]))

theorem uidlLine_fresh (fresh : Fresh msgTab) (line : Line) : Fresh (uidlLine msgTab line) := by
  unfold uidlLine
  split
  · exact fresh
  · next indx rest parsed =>
      split
      · exact fresh
      · next uidl spaced =>
          split
          · exact fresh
          · next bounded =>
              cases slot : carrayGet msgTab (indx - 1) with
              | none => exact fresh
              | some msg =>
                  have found := carrayGet_mem (slot_inside (msgIndexParse_pos parsed) bounded) slot
                  exact ⟨carraySet_valid fresh.valid _ _, fresh.unmarked.set (fresh.unmarked msg (List.mem_of_getElem? found))⟩

end Etpan.Pop3
