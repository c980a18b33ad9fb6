import Etpan.Mbox.Fields

namespace Etpan.Mbox

open Etpan.Data

/-! Header blocks: what the parser of header fields does on fields put one after the other. -/

def IsField (field : List UInt8) : Prop := mailimfIgnoreFieldParse field = some field.length

instance (field : List UInt8) : Decidable (IsField field) :=
  inferInstanceAs (Decidable (mailimfIgnoreFieldParse field = some field.length))

def startsBlank (text : List UInt8) : Bool := text.head?.any isBlank

theorem startsBlank_append {left : List UInt8} (nonempty : left ≠ []) (right : List UInt8) :
    startsBlank (left ++ right) = startsBlank left := by
  cases left with
  | nil => contradiction
  | cons byte left => rfl

theorem ignoreFieldFrom_append {state : FieldState} {hasField : Bool} {field rest : List UInt8}
    (whole : ignoreFieldFrom state hasField field = some field.length) (ends : startsBlank rest = false) :
    ignoreFieldFrom state hasField (field ++ rest) = some field.length := by
  induction field generalizing state hasField with
  | nil =>
      rw [ignoreFieldFrom] at whole
      split at whole
      · rename_i finished
        cases rest with
        | nil => simp [ignoreFieldFrom, finished]
        | cons byte rest =>
            have notBlank : isBlank byte = false := ends
            simp [ignoreFieldFrom, finished, notBlank]
      · contradiction
  | cons byte field ih =>
      rw [ignoreFieldFrom] at whole
      rw [List.cons_append, ignoreFieldFrom]
      split_ifs at whole ⊢
      · exact absurd (Option.some.inj whole) (by simp)
      · obtain ⟨inner, behind, length_eq⟩ := Option.map_eq_some_iff.mp whole
        obtain rfl : inner = field.length := by simpa using length_eq
        rw [ih behind]
        rfl

theorem ignoreFieldFrom_split {state : FieldState} {hasField : Bool} {text : List UInt8} {length : Nat}
    (parsed : ignoreFieldFrom state hasField text = some length) :
    ignoreFieldFrom state hasField (text.take length) = some length ∧ startsBlank (text.drop length) = false := by
  induction text generalizing state hasField length with
  | nil =>
      have finished := parsed
      rw [ignoreFieldFrom] at parsed
      split at parsed
      · cases parsed
        exact ⟨finished, rfl⟩
      · contradiction
  | cons byte text ih =>
      rw [ignoreFieldFrom] at parsed
      split_ifs at parsed with ended found
      · cases parsed
        refine ⟨?_, by simpa [startsBlank] using ended.2⟩
        simp [ignoreFieldFrom, ended.1, found]
      · obtain ⟨inner, behind, rfl⟩ := Option.map_eq_some_iff.mp parsed
        obtain ⟨taken, dropped⟩ := ih behind
        refine ⟨?_, dropped⟩
        rw [List.take_succ_cons, ignoreFieldFrom, if_neg ended, taken]
        rfl

theorem IsField.nonempty {field : List UInt8} (isField : IsField field) : field ≠ [] := by
  rintro rfl
  contradiction

theorem IsField.append {field rest : List UInt8} (isField : IsField field) (ends : startsBlank rest = false) :
    mailimfIgnoreFieldParse (field ++ rest) = some field.length := by
  cases field with
  | nil => contradiction
  | cons byte field =>
      rw [IsField, mailimfIgnoreFieldParse] at isField
      rw [List.cons_append, mailimfIgnoreFieldParse]
      split_ifs at isField ⊢
      exact ignoreFieldFrom_append isField ends

theorem mailimfIgnoreFieldParse_split {text : List UInt8} {length : Nat}
    (parsed : mailimfIgnoreFieldParse text = some length) :
    IsField (text.take length) ∧ startsBlank (text.drop length) = false := by
  have bounds := mailimfIgnoreFieldParse_bounds parsed
  cases text with
  | nil => contradiction
  | cons byte text =>
      rw [mailimfIgnoreFieldParse] at parsed
      split_ifs at parsed with lineEnd
      obtain ⟨taken, dropped⟩ := ignoreFieldFrom_split parsed
      refine ⟨?_, dropped⟩
      cases length with
      | zero => exact absurd bounds.1 (lt_irrefl 0)
      | succ length =>
          rw [List.take_succ_cons] at taken ⊢
          rw [IsField, mailimfIgnoreFieldParse, if_neg lineEnd, taken, ← List.take_succ_cons, List.length_take,
            min_eq_left bounds.2]

theorem next_eq_lf {state : FieldState} {byte : UInt8} (next : state.next byte = .lf) : byte = LF := by
  cases state with
  | start | wsp =>
      rw [FieldState.next] at next
      split_ifs at next with cr lf
      exact lf
  | cr =>
      rw [FieldState.next] at next
      split_ifs at next with lf
      exact lf
  | lf => contradiction

theorem ignoreFieldFrom_ends {state : FieldState} {hasField : Bool} {field : List UInt8}
    (whole : ignoreFieldFrom state hasField field = some field.length) :
    (field = [] ∧ state = .lf) ∨ ∃ text, field = text ++ [LF] := by
  induction field generalizing state hasField with
  | nil =>
      rw [ignoreFieldFrom] at whole
      split at whole
      · exact .inl ⟨rfl, by rename_i finished; exact finished.1⟩
      · contradiction
  | cons byte field ih =>
      rw [ignoreFieldFrom] at whole
      split_ifs at whole
      · exact absurd (Option.some.inj whole) (by simp)
      · obtain ⟨inner, behind, length_eq⟩ := Option.map_eq_some_iff.mp whole
        obtain rfl : inner = field.length := by simpa using length_eq
        right
        rcases ih behind with ⟨rfl, lf⟩ | ⟨text, rfl⟩
        · refine ⟨[], ?_⟩
          rw [next_eq_lf lf]
          rfl
        · exact ⟨byte :: text, rfl⟩

theorem IsField.ends {field : List UInt8} (isField : IsField field) : ∃ text, field = text ++ [LF] := by
  cases field with
  | nil => contradiction
  | cons byte field =>
      rw [IsField, mailimfIgnoreFieldParse] at isField
      split_ifs at isField
      rcases ignoreFieldFrom_ends isField with ⟨nothing, -⟩ | ends
      · contradiction
      · exact ends

theorem isUidHeader_length {text : List UInt8} (header : isUidHeader text = true) :
    uidHeader.length ≤ text.length := by
  simp only [isUidHeader, Bool.and_eq_true, decide_eq_true_eq] at header
  have lengths := congrArg List.length header.2
  rw [List.length_map, List.length_map, List.length_take] at lengths
  omega

theorem IsField.isUidHeader_append {field : List UInt8} (isField : IsField field) (rest : List UInt8) :
    isUidHeader (field ++ rest) = isUidHeader field := by
  obtain ⟨text, rfl⟩ := isField.ends
  by_cases long : uidHeader.length ≤ (text ++ [LF]).length
  · rw [isUidHeader, isUidHeader, List.take_append_of_le_length long]
    congr 2
    rw [List.head?_append_of_ne_nil _ (by simp)]
  · have notHeader : isUidHeader (text ++ [LF]) ≠ true := fun header => long (isUidHeader_length header)
    have notLonger : isUidHeader (text ++ [LF] ++ rest) ≠ true := by
      intro header
      simp only [isUidHeader, Bool.and_eq_true, decide_eq_true_eq] at header
      have member : LF ∈ (text ++ [LF] ++ rest).take uidHeader.length := by
        rw [List.take_append, List.take_of_length_le (by omega)]
        simp
      have lowered := List.mem_map_of_mem (f := toLower) member
      rw [header.2] at lowered
      revert lowered
      decide
    rw [Bool.eq_false_iff.mpr notHeader, Bool.eq_false_iff.mpr notLonger]

/-- Fields one after the other, none of which is continued by what follows. -/
inductive FieldsThen : List (List UInt8) → List UInt8 → Prop
  | nil {tail} : FieldsThen [] tail
  | cons {field fields tail} : IsField field → startsBlank (fields.flatten ++ tail) = false →
      FieldsThen fields tail → FieldsThen (field :: fields) tail

theorem FieldsThen.congr {fields : List (List UInt8)} {tail other : List UInt8} (fieldsThen : FieldsThen fields tail)
    (sameStart : startsBlank other = startsBlank tail) : FieldsThen fields other := by
  induction fieldsThen with
  | nil => exact .nil
  | @cons field fields tail isField ends behind ih =>
      refine .cons isField ?_ (ih sameStart)
      by_cases nothing : fields.flatten = []
      · rw [nothing] at ends ⊢
        exact sameStart.trans ends
      · rwa [startsBlank_append nothing] at ends ⊢

theorem FieldsThen.notBlank {fields : List (List UInt8)} {tail : List UInt8} (fieldsThen : FieldsThen fields tail)
    (nonempty : fields ≠ []) : startsBlank tail = false := by
  induction fieldsThen with
  | nil => contradiction
  | @cons field fields tail isField ends behind ih =>
      by_cases last : fields = []
      · rw [last] at ends
        exact ends
      · exact ih last

theorem FieldsThen.replace {fields : List (List UInt8)} {tail other : List UInt8} (fieldsThen : FieldsThen fields tail)
    (notBlank : startsBlank other = false) : FieldsThen fields other := by
  by_cases none : fields = []
  · rw [none]
    exact .nil
  · exact fieldsThen.congr (notBlank.trans (fieldsThen.notBlank none).symm)

theorem FieldsThen.snoc {fields : List (List UInt8)} {field tail : List UInt8}
    (fieldsThen : FieldsThen fields (field ++ tail)) (isField : IsField field) (notBlank : startsBlank tail = false) :
    FieldsThen (fields ++ [field]) tail := by
  induction fields with
  | nil => exact .cons isField notBlank .nil
  | cons first fields ih =>
      cases fieldsThen with
      | cons firstField ends behind =>
          refine .cons firstField ?_ (ih behind)
          simpa [List.append_assoc] using ends

/-- The UID that the last UID header of a block gives. -/
def foldUid : UInt32 → List (List UInt8) → List UInt8 → UInt32
  | uid, [], _ => uid
  | uid, field :: fields, tail =>
      foldUid (if isUidHeader field then fieldUid (field ++ (fields.flatten ++ tail)) field.length else uid)
        fields tail

theorem mailmboxFieldsParse_some {uid : UInt32} {rest : List UInt8} {length : Nat}
    (parsed : mailimfIgnoreFieldParse rest = some length) :
    mailmboxFieldsParse uid rest =
      (length + (mailmboxFieldsParse (if uidHeader.length ≤ length ∧ isUidHeader rest then fieldUid rest length else uid)
        (rest.drop length)).1,
       (mailmboxFieldsParse (if uidHeader.length ≤ length ∧ isUidHeader rest then fieldUid rest length else uid)
        (rest.drop length)).2) := by
  rw [mailmboxFieldsParse]
  split
  · rename_i failed
    rw [parsed] at failed
    contradiction
  · rename_i found succeeded
    rw [parsed] at succeeded
    cases succeeded
    rfl

theorem mailmboxFieldsParse_none {uid : UInt32} {rest : List UInt8} (failed : mailimfIgnoreFieldParse rest = none) :
    mailmboxFieldsParse uid rest = (0, uid) := by
  rw [mailmboxFieldsParse]
  split
  · rfl
  · rename_i succeeded
    rw [failed] at succeeded
    contradiction

theorem mailmboxFieldsParse_fields {fields : List (List UInt8)} {tail : List UInt8}
    (fieldsThen : FieldsThen fields tail) (failed : mailimfIgnoreFieldParse tail = none) (uid : UInt32) :
    mailmboxFieldsParse uid (fields.flatten ++ tail) = (fields.flatten.length, foldUid uid fields tail) := by
  induction fieldsThen generalizing uid with
  | nil => exact mailmboxFieldsParse_none failed
  | @cons field fields tail isField ends behind ih =>
      have isUid : (uidHeader.length ≤ field.length ∧ isUidHeader (field ++ (fields.flatten ++ tail)) = true) ↔
          isUidHeader field = true := by
        rw [isField.isUidHeader_append]
        exact ⟨And.right, fun header => ⟨isUidHeader_length header, header⟩⟩
      rw [List.flatten_cons, List.append_assoc, mailmboxFieldsParse_some (isField.append ends), List.drop_left,
        ih failed, foldUid, List.length_append]
      simp only [isUid]

theorem mailmboxFieldsParse_cases (rest : List UInt8) : ∃ fields tail, rest = fields.flatten ++ tail ∧
    FieldsThen fields tail ∧ mailimfIgnoreFieldParse tail = none := by
  induction length : rest.length using Nat.strong_induction_on generalizing rest with
  | _ length ih =>
      cases parsed : mailimfIgnoreFieldParse rest with
      | none => exact ⟨[], rest, rfl, .nil, parsed⟩
      | some count =>
          have bounds := mailimfIgnoreFieldParse_bounds parsed
          obtain ⟨isField, ends⟩ := mailimfIgnoreFieldParse_split parsed
          obtain ⟨fields, tail, split, fieldsThen, failed⟩ :=
            ih (rest.drop count).length (by rw [List.length_drop]; omega) (rest.drop count) rfl
          refine ⟨rest.take count :: fields, tail, ?_, .cons isField (split ▸ ends) fieldsThen, failed⟩
          rw [List.flatten_cons, List.append_assoc, ← split, List.take_append_drop]

def uidLine (number : List UInt8) : List UInt8 := uidHeader ++ (SP :: (number ++ [LF]))

theorem uidLine_length (number : List UInt8) : (uidLine number).length = uidHeader.length + number.length + 2 := by
  simp only [uidLine, List.length_append, List.length_cons, List.length_nil]
  omega

theorem digit_facts : ∀ byte, isDigit byte = true →
    byte ≠ LF ∧ byte ≠ SP ∧ byte ≠ CR ∧ isSpace byte = false ∧ byte ≠ ascii '-' ∧ byte ≠ ascii '+' := by
  apply forall_octet
  decide +kernel

theorem ignoreFieldFrom_line {text : List UInt8} (noBreak : ∀ byte ∈ text, byte ≠ CR ∧ byte ≠ LF) (hasField : Bool) :
    ignoreFieldFrom .start hasField (text ++ [LF]) =
      if hasField ∨ ascii ':' ∈ text then some (text.length + 1) else none := by
  induction text generalizing hasField with
  | nil => cases hasField <;> decide
  | cons byte text ih =>
      have facts := noBreak byte (.head _)
      rw [List.cons_append, ignoreFieldFrom, if_neg (by simp), FieldState.next, if_neg facts.1, if_neg facts.2,
        ih fun other member => noBreak other (.tail _ member)]
      by_cases colon : byte = ascii ':'
      · simp [colon]
      · simp only [colon, decide_false, Bool.or_false, List.mem_cons, Ne.symm colon, false_or]
        split_ifs <;> rfl

theorem isField_uidLine {number : List UInt8} (noBreak : ∀ byte ∈ number, byte ≠ CR ∧ byte ≠ LF) :
    IsField (uidLine number) := by
  have clean : ∀ byte ∈ uidHeader ++ (SP :: number), byte ≠ CR ∧ byte ≠ LF := by
    intro byte member
    rcases List.mem_append.mp member with header | member
    · have letters : ∀ byte ∈ uidHeader, byte ≠ CR ∧ byte ≠ LF := by decide +kernel
      exact letters byte header
    · rcases List.mem_cons.mp member with rfl | member
      · decide
      · exact noBreak byte member
  have line_eq : uidLine number = uidHeader ++ (SP :: number) ++ [LF] := by simp [uidLine]
  have parsed := ignoreFieldFrom_line clean false
  rw [if_pos (.inr (List.mem_append_left _ (by decide))), ← line_eq] at parsed
  rw [IsField, line_eq, List.length_append, List.length_singleton, ← parsed, ← line_eq]
  rfl

theorem isUidHeader_uidLine (number rest : List UInt8) : isUidHeader (uidLine number ++ rest) = true := by
  rw [isUidHeader, uidLine, List.append_assoc, List.take_left]
  rfl

theorem startsBlank_uidLine (number rest : List UInt8) : startsBlank (uidLine number ++ rest) = false := rfl

theorem fieldUid_uidLine (uid : UInt32) (rest : List UInt8) :
    fieldUid (uidLine (decimal uid.toNat) ++ rest) (uidLine (decimal uid.toNat)).length = uid := by
  have digits : ∀ byte ∈ decimal uid.toNat, isDigit byte = true := fun _ => decimal_digits _
  obtain ⟨first, others, decimal_eq⟩ := List.exists_cons_of_ne_nil (decimal_ne_nil uid.toNat)
  have facts := digit_facts first (digits first (decimal_eq ▸ .head _))
  have behind : (uidLine (decimal uid.toNat) ++ rest).drop uidHeader.length =
      SP :: (decimal uid.toNat ++ LF :: rest) := by
    rw [uidLine, List.append_assoc, List.drop_left]
    simp
  have skipped : ∀ limit, skipBlanks (limit + 1) (SP :: (decimal uid.toNat ++ LF :: rest)) =
      decimal uid.toNat ++ LF :: rest := by
    intro limit
    rw [skipBlanks, if_pos rfl, decimal_eq, List.cons_append]
    cases limit with
    | zero => rfl
    | succ limit => rw [skipBlanks, if_neg facts.2.1]
  have number : strtoul (decimal uid.toNat ++ LF :: rest) = uid.toNat := by
    have noSpace : (decimal uid.toNat ++ LF :: rest).dropWhile isSpace = decimal uid.toNat ++ LF :: rest := by
      rw [decimal_eq, List.cons_append, List.dropWhile_cons_of_neg (by simp [facts.2.2.2.1])]
    have head : (decimal uid.toNat ++ LF :: rest).head? = some first := by rw [decimal_eq]; rfl
    have taken : (decimal uid.toNat ++ LF :: rest).takeWhile isDigit = decimal uid.toNat := by
      rw [List.takeWhile_append_of_pos digits, List.takeWhile_cons_of_neg (by decide), List.append_nil]
    have bound := uid.toNat_lt
    simp only [strtoul, noSpace, head, Option.some.injEq, facts.2.2.2.2.1, facts.2.2.2.2.2, or_self, if_false, taken,
      decimalValue_decimal]
    rw [if_neg (by omega)]
  have room : (uidLine (decimal uid.toNat)).length - uidHeader.length = (decimal uid.toNat).length + 1 + 1 := by
    rw [uidLine_length]
    omega
  rw [fieldUid, behind, room, skipped, number, UInt32.ofNat_toNat]

theorem foldUid_snoc (uid : UInt32) (fields : List (List UInt8)) (field tail : List UInt8)
    (header : isUidHeader field = true) :
    foldUid uid (fields ++ [field]) tail = fieldUid (field ++ tail) field.length := by
  induction fields generalizing uid with
  | nil => simp [foldUid, header]
  | cons first fields ih =>
      rw [List.cons_append, foldUid]
      exact ih _

end Etpan.Mbox
