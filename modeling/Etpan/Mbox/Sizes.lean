import Etpan.Data.Cursor
import Etpan.Mbox.Contents

namespace Etpan.Mbox

open Etpan.Data

/-! The size that is counted for a message, and the pointer that writes it. -/

/-- The header fields without UID headers are written, and what follows them is left. -/
def writeFixedFieldsAt (str : Cursor UInt8) (message : List UInt8) : Cursor UInt8 × List UInt8 :=
  match _parsed : mailimfIgnoreFieldParse message with
  | none => (str, message)
  | some length => writeFixedFieldsAt (if isUidHeader message then str else str.put (message.take length)) (message.drop length)
termination_by message.length
decreasing_by
  have bounds := mailimfIgnoreFieldParse_bounds (by assumption)
  rw [List.length_drop]
  omega

def writeFixedLineAt (str : Cursor UInt8) (line : List UInt8) : Cursor UInt8 :=
  if 5 ≤ line.length ∧ line.take 5 = fromPrefix then (str.put [ascii '>']).put line else str.put line

def writeFixedLinesAt (str : Cursor UInt8) (text : List UInt8) : Cursor UInt8 :=
  if _nothing : text = [] then str
  else writeFixedLinesAt (writeFixedLineAt str (text.take (getLine text))) (text.drop (getLine text))
termination_by text.length
decreasing_by
  have positive := getLine_pos _nothing
  have text_pos := List.length_pos_iff.mpr _nothing
  rw [List.length_drop]
  omega

/-- `write_fixed_message` with its pointer; `snprintf` has a room of 20 octets. -/
def writeFixedMessageAt (str : Cursor UInt8) (message : List UInt8) (uid : Option UInt32) : Cursor UInt8 :=
  let header := writeFixedFieldsAt str message
  let str := uid.elim header.1 fun uid => (header.1.put (uidHeader ++ [SP])).print 0 20 (signedDecimal uid ++ [LF])
  writeFixedLinesAt str header.2

/-! ### The pointer goes over what is written -/

/-- All but a terminator is in front of the pointer. -/
def Trailing (str : Cursor UInt8) : Prop := str.Within (str.offset + 1)

theorem Trailing.put {str : Cursor UInt8} (trailing : Trailing str) (cells : List UInt8) : Trailing (str.put cells) := by
  rw [Trailing, Cursor.put_offset]
  exact (trailing.mono (by omega)).put (by omega)

theorem Trailing.print {str : Cursor UInt8} (trailing : Trailing str) (room : Nat) (text : List UInt8) : Trailing (str.print 0 room text) := by
  rw [Trailing, Cursor.print_offset]
  exact (trailing.mono (by omega)).print (by omega)

theorem writeFixedFieldsAt_spec {str : Cursor UInt8} {message : List UInt8} (trailing : Trailing str) :
    (writeFixedFieldsAt str message).2 = (fixedFields message).2 ∧
      (writeFixedFieldsAt str message).1.offset = str.offset + (fixedFields message).1.length ∧ Trailing (writeFixedFieldsAt str message).1 := by
  fun_induction writeFixedFieldsAt str message with
  | case1 str message failed =>
      rw [fixedFields_none failed]
      exact ⟨rfl, rfl, trailing⟩
  | case2 str message length parsed ih =>
      rw [fixedFields_some parsed]
      dsimp only
      by_cases isUid : isUidHeader message = true
      · rw [dif_pos isUid] at ih
        simp only [if_pos isUid]
        exact ih trailing
      · rw [dif_neg isUid] at ih
        simp only [if_neg isUid]
        obtain ⟨rest, offset, trailing⟩ := ih (trailing.put _)
        refine ⟨rest, ?_, trailing⟩
        rw [offset, Cursor.put_offset, List.length_append]
        omega

theorem writeFixedLineAt_spec {str : Cursor UInt8} (line : List UInt8) (trailing : Trailing str) :
    (writeFixedLineAt str line).offset = str.offset + (writeFixedLine line).length ∧ Trailing (writeFixedLineAt str line) := by
  rw [writeFixedLineAt, writeFixedLine]
  split_ifs
  · refine ⟨?_, (trailing.put _).put _⟩
    simp only [Cursor.put_offset, List.length_cons, List.length_nil]
    omega
  · exact ⟨rfl, trailing.put _⟩

theorem writeFixedLinesAt_spec {str : Cursor UInt8} {text : List UInt8} (trailing : Trailing str) :
    (writeFixedLinesAt str text).offset = str.offset + (writeFixedLines text).length ∧ Trailing (writeFixedLinesAt str text) := by
  fun_induction writeFixedLinesAt str text with
  | case1 str =>
      rw [writeFixedLines, dif_pos rfl]
      exact ⟨rfl, trailing⟩
  | case2 str text some ih =>
      obtain ⟨first, trailing⟩ := writeFixedLineAt_spec (text.take (getLine text)) trailing
      obtain ⟨later, trailing⟩ := ih trailing
      refine ⟨?_, trailing⟩
      rw [writeFixedLines, dif_neg some, later, first, List.length_append, Nat.add_assoc]

theorem writeFixedMessageAt_spec {str : Cursor UInt8} (message : List UInt8) (uid : Option UInt32) (trailing : Trailing str) :
    (writeFixedMessageAt str message uid).offset = str.offset + (writeFixedMessage message uid).length ∧
      Trailing (writeFixedMessageAt str message uid) := by
  obtain ⟨rest, offset, trailing⟩ := @writeFixedFieldsAt_spec str message trailing
  rw [writeFixedMessageAt, writeFixedMessage, rest]
  cases uid with
  | none =>
      obtain ⟨lines, trailing⟩ := @writeFixedLinesAt_spec _ (fixedFields message).2 trailing
      refine ⟨?_, trailing⟩
      simp only [Option.elim_none, List.append_nil, List.length_append]
      rw [lines, offset, Nat.add_assoc]
  | some uid =>
      obtain ⟨lines, trailing⟩ := @writeFixedLinesAt_spec _ (fixedFields message).2
        ((trailing.put (uidHeader ++ [SP])).print 20 (signedDecimal uid ++ [LF]))
      refine ⟨?_, trailing⟩
      simp only [Option.elim_some, List.length_append, uidLine_length]
      rw [lines, Cursor.print_offset, Cursor.put_offset, offset]
      simp only [List.length_append, List.length_singleton]
      omega

theorem getFixedFieldsSize_eq (message : List UInt8) :
    getFixedFieldsSize message = ((fixedFields message).1.length, (fixedFields message).2) := by
  fun_induction getFixedFieldsSize message with
  | case1 message failed => rw [fixedFields_none failed, List.length_nil]
  | case2 message length parsed others ih =>
      have bounds := mailimfIgnoreFieldParse_bounds parsed
      rw [fixedFields_some parsed]
      simp only [others, ih]
      split_ifs
      · rfl
      · rw [List.length_append, List.length_take, Nat.min_eq_left bounds.2]

theorem getFixedLinesSize_eq (text : List UInt8) : getFixedLinesSize text = (writeFixedLines text).length := by
  fun_induction getFixedLinesSize text with
  | case1 => rw [writeFixedLines, dif_pos rfl, List.length_nil]
  | case2 text some ih =>
      rw [writeFixedLines, dif_neg some, List.length_append, ← ih, getFixedLineSize, writeFixedLine]
      split_ifs
      · rw [List.length_cons]
      · rfl

theorem getFixedMessageSize_eq (message : List UInt8) (uid : Option UInt32) :
    getFixedMessageSize message uid + (uid.elim 0 fun uid => (signedDecimal uid).length) =
      (writeFixedMessage message uid).length + uid.elim 0 fun uid => digitCount uid.toNat := by
  rw [getFixedMessageSize, getFixedFieldsSize_eq, writeFixedMessage, getFixedLinesSize_eq]
  cases uid with
  | none =>
      simp only [Option.elim_none, List.append_nil, List.length_append]
      omega
  | some uid =>
      simp only [Option.elim_some, List.length_append, uidLine_length]
      omega

/-- The UIDs that `%i` writes with as many characters as they have digits: those of 31 bits, and those of 32 bits that
are negative numbers of nine digits. -/
def UidCounted (uid : UInt32) : Prop := uid.toNat < 2 ^ 31 ∨ 2 ^ 32 - 10 ^ 9 < uid.toNat ∧ uid.toNat ≤ 2 ^ 32 - 10 ^ 8

theorem signedDecimal_length (uid : UInt32) : (signedDecimal uid).length = digitCount uid.toNat ↔ UidCounted uid := by
  have bound := uid.toNat_lt
  rw [signedDecimal, UidCounted]
  split_ifs with small
  · exact iff_of_true (decimal_length _) (.inl small)
  have ten : digitCount uid.toNat = 10 := digitCount_eq (by omega) (by omega)
  rw [List.length_cons, decimal_length, ten, or_iff_right small]
  constructor
  · intro nine
    have atLeast : 10 ^ 8 ≤ 2 ^ 32 - uid.toNat := by
      by_contra fewer
      have short := @digitCount_le (2 ^ 32 - uid.toNat) 8 (by decide) (by omega)
      omega
    have atMost : 2 ^ 32 - uid.toNat < 10 ^ 9 := by
      by_contra more
      have long := @lt_digitCount (2 ^ 32 - uid.toNat) 9 (by omega)
      omega
    omega
  · rintro ⟨above, upTo⟩
    have nine : digitCount (2 ^ 32 - uid.toNat) = 9 := digitCount_eq (by omega) (by omega)
    rw [nine]

/-! ### The counted size is the written one -/

/-- The pointer goes as far as the size says, and does not write behind it. -/
structure SizeExact (message : List UInt8) (uid : Option UInt32) : Prop where
  advance : (writeFixedMessageAt .start message uid).offset = getFixedMessageSize message uid
  within : (writeFixedMessageAt .start message uid).Within (getFixedMessageSize message uid + 1)

theorem sizeExact_iff (message : List UInt8) (uid : Option UInt32) : SizeExact message uid ↔ ∀ number ∈ uid, UidCounted number := by
  obtain ⟨advance, trailing⟩ := @writeFixedMessageAt_spec .start message uid Cursor.within_start
  have start : (Cursor.start : Cursor UInt8).offset = 0 := rfl
  have counted := getFixedMessageSize_eq message uid
  rw [start, Nat.zero_add] at advance
  have exact_iff : SizeExact message uid ↔ getFixedMessageSize message uid = (writeFixedMessage message uid).length := by
    constructor
    · intro exact
      rw [← exact.advance, advance]
    · intro same
      refine ⟨advance.trans same.symm, ?_⟩
      rw [same, ← advance]
      exact trailing
  rw [exact_iff]
  cases uid with
  | none => exact iff_of_true counted fun _ member => absurd member (Option.not_mem_none _)
  | some uid =>
      have iff := signedDecimal_length uid
      simp only [Option.elim_some] at counted
      constructor
      · intro same number member
        obtain rfl := Option.mem_some.mp member
        exact iff.mp (by omega)
      · intro fits
        have same := iff.mpr (fits uid rfl)
        omega

end Etpan.Mbox
