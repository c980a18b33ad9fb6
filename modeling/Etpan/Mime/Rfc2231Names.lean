import Etpan.Mime.Rfc2231

namespace Etpan.Mime

open Etpan.Data Etpan.Imf

/-! Which names `rfc2231_name_parse` takes for `base*`, `base*N` and `base*N*`. -/

def IsBase (base : List UInt8) : Prop := base ≠ [] ∧ ascii '*' ∉ base

def IsSingle (base name : List UInt8) : Prop := name.map tolower = base.map tolower ++ [ascii '*']

/-- The name is `base*N*` or, where it is not `encoded`, `base*N`, in any case. -/
def IsSection (base : List UInt8) (number : Nat) (encoded : Bool) (name : List UInt8) : Prop :=
  ∃ digits, digits ≠ [] ∧ (∀ digit ∈ digits, isDigit digit = true) ∧ decimalValue digits = number ∧
    name.map tolower = base.map tolower ++ ascii '*' :: digits ++ if encoded then [ascii '*'] else []

/-- The number behind the first asterisk, if there is one, is in the range of `int`. -/
def SectionFits (name : List UInt8) : Prop :=
  ∀ base digits tail, name = base ++ ascii '*' :: digits ++ tail → IsBase base → (∀ digit ∈ digits, isDigit digit = true) →
    decimalValue digits < 2 ^ 31

/-! The octets of a name. -/

theorem tolower_star : ∀ octet, tolower octet = ascii '*' ↔ octet = ascii '*' := forall_octet (by decide +kernel)

theorem tolower_digit : ∀ octet, isDigit octet = true → tolower octet = octet := forall_octet (by decide +kernel)

theorem isDigit_tolower : ∀ octet, isDigit (tolower octet) = isDigit octet := forall_octet (by decide +kernel)

theorem star_not_digit : isDigit (ascii '*') = false := by decide

theorem map_tolower_digits {digits : List UInt8} (areDigits : ∀ digit ∈ digits, isDigit digit = true) : digits.map tolower = digits := by
  conv_rhs => rw [← List.map_id digits]
  exact List.map_congr_left fun digit member => tolower_digit digit (areDigits digit member)

theorem star_mem_map {name : List UInt8} : ascii '*' ∈ name.map tolower ↔ ascii '*' ∈ name := by
  simp only [List.mem_map, tolower_star, exists_eq_right]

/-! The number. -/

theorem le_foldl_digits (digits : List UInt8) (number : Nat) :
    number ≤ digits.foldl (fun value digit => value * 10 + (digit.toNat - 48)) number := by
  induction digits generalizing number with
  | nil => exact le_rfl
  | cons digit digits ih =>
      have later := ih (number * 10 + (digit.toNat - 48))
      rw [List.foldl_cons]
      omega

theorem rfc2231Section_eq (digits : List UInt8) (number : Nat) (small : number < 2 ^ 31) :
    rfc2231Section digits number =
      let value := digits.foldl (fun value digit => value * 10 + (digit.toNat - 48)) number
      if value < 2 ^ 31 then some value else none := by
  induction digits generalizing number with
  | nil => rw [rfc2231Section, List.foldl_nil, if_pos small]
  | cons digit digits ih =>
      have zero : (ascii '0').toNat = 48 := rfl
      have later := le_foldl_digits digits (number * 10 + (digit.toNat - 48))
      rw [rfc2231Section, List.foldl_cons, zero]
      dsimp only
      split_ifs with fits tooLarge tooLarge
      · rw [ih _ fits, if_pos tooLarge]
      · rw [ih _ fits, if_neg tooLarge]
      · omega
      · rfl

/-! The parts of a name. -/

theorem splitStar {base rest : List UInt8} (starless : ascii '*' ∉ base) :
    (base ++ ascii '*' :: rest).takeWhile (· ≠ ascii '*') = base ∧ (base ++ ascii '*' :: rest).dropWhile (· ≠ ascii '*') = ascii '*' :: rest := by
  have passes : ∀ octet ∈ base, decide (octet ≠ ascii '*') = true := by
    intro octet member
    rw [decide_eq_true_eq]
    rintro rfl
    exact starless member
  constructor
  · rw [List.takeWhile_append_of_pos passes, List.takeWhile_cons_of_neg (by simp), List.append_nil]
  · rw [List.dropWhile_append_of_pos passes, List.dropWhile_cons_of_neg (by simp)]

theorem rfc2231NameParse_starless {name : List UInt8} (starless : ascii '*' ∉ name) : rfc2231NameParse name = some .cleared := by
  have nothing : name.dropWhile (· ≠ ascii '*') = [] := by
    rw [List.dropWhile_eq_nil_iff]
    intro octet member
    rw [decide_eq_true_eq]
    rintro rfl
    exact starless member
  rw [rfc2231NameParse, nothing]

theorem rfc2231NameParse_single {base : List UInt8} (isBase : IsBase base) :
    rfc2231NameParse (base ++ [ascii '*']) = some { Rfc2231Name.cleared with base, encoded := true, valid := true } := by
  obtain ⟨taken, dropped⟩ := @splitStar base [] isBase.2
  rw [rfc2231NameParse, taken, dropped]
  simp only [isBase.1, if_false, if_true]

theorem rfc2231NameParse_digits {base digits tail : List UInt8} (isBase : IsBase base) (nonempty : digits ≠ [])
    (areDigits : ∀ digit ∈ digits, isDigit digit = true) (ends : ∀ octet ∈ tail.head?, isDigit octet = false) :
    rfc2231NameParse (base ++ ascii '*' :: digits ++ tail) =
      if decimalValue digits < 2 ^ 31 then
        let encoded := tail.head? = some (ascii '*')
        let behind := if encoded then tail.tail else tail
        some { base, number := decimalValue digits, hasSection := true, encoded, valid := behind = [] }
      else none := by
  obtain ⟨taken, dropped⟩ := @splitStar base (digits ++ tail) isBase.2
  have tailTaken : tail.takeWhile isDigit = [] ∧ tail.dropWhile isDigit = tail := by
    cases tail with
    | nil => exact ⟨rfl, rfl⟩
    | cons octet tail =>
        have notDigit := ends octet rfl
        exact ⟨List.takeWhile_cons_of_neg (by simp [notDigit]), List.dropWhile_cons_of_neg (by simp [notDigit])⟩
  have digitsTaken : (digits ++ tail).takeWhile isDigit = digits := by
    rw [List.takeWhile_append_of_pos areDigits, tailTaken.1, List.append_nil]
  have digitsDropped : (digits ++ tail).dropWhile isDigit = tail := by
    rw [List.dropWhile_append_of_pos areDigits, tailTaken.2]
  have some_left : digits ++ tail ≠ [] := List.append_ne_nil_of_left_ne_nil nonempty tail
  rw [List.append_assoc, List.cons_append, rfc2231NameParse, taken, dropped]
  simp only [isBase.1, some_left, digitsTaken, digitsDropped, nonempty, if_false]
  have number := rfc2231Section_eq digits 0 (by norm_num)
  change _ = if decimalValue digits < 2 ^ 31 then some (decimalValue digits) else none at number
  rw [number]
  split_ifs <;> rfl

/-- The forms of a name, with what each is read as. -/
inductive NameForm : List UInt8 → Option Rfc2231Name → Prop
  | starless {name} (starless : ascii '*' ∉ name) : NameForm name (some .cleared)
  | baseless {rest} : NameForm (ascii '*' :: rest) (some .cleared)
  | single {base} (isBase : IsBase base) :
      NameForm (base ++ [ascii '*']) (some { Rfc2231Name.cleared with base, encoded := true, valid := true })
  | other {base octet rest} (isBase : IsBase base) (notDigit : isDigit octet = false) :
      NameForm (base ++ ascii '*' :: octet :: rest) (some { Rfc2231Name.cleared with base })
  | digits {base digits tail} (isBase : IsBase base) (nonempty : digits ≠ []) (areDigits : ∀ digit ∈ digits, isDigit digit = true)
      (ends : ∀ octet ∈ tail.head?, isDigit octet = false) :
      NameForm (base ++ ascii '*' :: digits ++ tail)
        (if decimalValue digits < 2 ^ 31 then
          let encoded := tail.head? = some (ascii '*')
          let behind := if encoded then tail.tail else tail
          some { base, number := decimalValue digits, hasSection := true, encoded, valid := behind = [] }
        else none)

theorem rfc2231NameParse_form (name : List UInt8) : NameForm name (rfc2231NameParse name) := by
  by_cases starless : ascii '*' ∉ name
  · rw [rfc2231NameParse_starless starless]
    exact .starless starless
  obtain ⟨base, rest, rfl, isFirst⟩ := List.eq_append_cons_of_mem (not_not.mp starless)
  obtain ⟨taken, dropped⟩ := @splitStar base rest isFirst
  by_cases baseless : base = []
  · subst baseless
    have read : rfc2231NameParse ([] ++ ascii '*' :: rest) = some .cleared := by
      rw [rfc2231NameParse, taken, dropped]
      rfl
    rw [read]
    exact .baseless
  have isBase : IsBase base := ⟨baseless, isFirst⟩
  cases rest with
  | nil =>
      rw [rfc2231NameParse_single isBase]
      exact .single isBase
  | cons octet rest =>
      rcases first : isDigit octet with _ | _
      · have read : rfc2231NameParse (base ++ ascii '*' :: octet :: rest) = some { Rfc2231Name.cleared with base } := by
          have nothing : (octet :: rest).takeWhile isDigit = [] := List.takeWhile_cons_of_neg (by simp [first])
          rw [rfc2231NameParse, taken, dropped]
          simp only [baseless, nothing, if_false, if_true, List.cons_ne_nil]
        rw [read]
        exact .other isBase first
      · have split : base ++ ascii '*' :: octet :: rest =
            base ++ ascii '*' :: (octet :: rest).takeWhile isDigit ++ (octet :: rest).dropWhile isDigit := by
          rw [List.append_assoc, List.cons_append, List.takeWhile_append_dropWhile]
        have nonempty : (octet :: rest).takeWhile isDigit ≠ [] := by
          rw [List.takeWhile_cons_of_pos first]
          exact List.cons_ne_nil _ _
        have areDigits : ∀ digit ∈ (octet :: rest).takeWhile isDigit, isDigit digit = true := fun digit member => List.mem_takeWhile_imp member
        have ends : ∀ other ∈ ((octet :: rest).dropWhile isDigit).head?, isDigit other = false := by
          intro other isHead
          have stopped := List.head?_dropWhile_not isDigit (octet :: rest)
          rw [Option.mem_def.mp isHead] at stopped
          simpa using stopped
        rw [split, rfc2231NameParse_digits isBase nonempty areDigits ends]
        exact .digits isBase nonempty areDigits ends

theorem append_star_inj {left right behindLeft behindRight : List UInt8} (leftStarless : ascii '*' ∉ left) (rightStarless : ascii '*' ∉ right) :
    left ++ ascii '*' :: behindLeft = right ++ ascii '*' :: behindRight ↔ left = right ∧ behindLeft = behindRight := by
  refine ⟨fun same => ?_, fun ⟨same, behind⟩ => by rw [same, behind]⟩
  have takenLeft := (@splitStar left behindLeft leftStarless).1
  rw [same, (@splitStar right behindRight rightStarless).1] at takenLeft
  refine ⟨takenLeft.symm, ?_⟩
  rw [takenLeft, List.append_cancel_left_eq, List.cons.injEq] at same
  exact same.2

theorem IsBase.lower {base : List UInt8} (isBase : IsBase base) : ascii '*' ∉ base.map tolower := by
  rw [star_mem_map]
  exact isBase.2

theorem starred_iff {base other rest tail : List UInt8} (isBase : IsBase base) (starless : ascii '*' ∉ other) :
    (other ++ ascii '*' :: rest).map tolower = base.map tolower ++ ascii '*' :: tail ↔
      sameCaseless other base = true ∧ rest.map tolower = tail := by
  have star : tolower (ascii '*') = ascii '*' := (tolower_star _).mpr rfl
  have lower : ascii '*' ∉ other.map tolower := by
    rw [star_mem_map]
    exact starless
  rw [List.map_append, List.map_cons, star, append_star_inj lower isBase.lower, sameCaseless_iff]

theorem starless_not_starred {name base tail : List UInt8} (starless : ascii '*' ∉ name) :
    name.map tolower ≠ base.map tolower ++ ascii '*' :: tail := by
  intro same
  refine starless (star_mem_map.mp ?_)
  rw [same]
  exact List.mem_append_right _ List.mem_cons_self

theorem baseless_not_starred {base rest tail : List UInt8} (isBase : IsBase base) :
    (ascii '*' :: rest).map tolower ≠ base.map tolower ++ ascii '*' :: tail := by
  intro same
  obtain ⟨isEmpty, -⟩ := (@starred_iff base [] rest tail isBase List.not_mem_nil).mp same
  rw [sameCaseless_iff, List.map_nil] at isEmpty
  exact isBase.1 (List.map_eq_nil_iff.mp isEmpty.symm)

theorem append_digits_inj {left right behindLeft behindRight : List UInt8} (leftDigits : ∀ digit ∈ left, isDigit digit = true)
    (rightDigits : ∀ digit ∈ right, isDigit digit = true) (leftEnds : ∀ octet ∈ behindLeft.head?, isDigit octet = false)
    (rightEnds : ∀ octet ∈ behindRight.head?, isDigit octet = false) (same : left ++ behindLeft = right ++ behindRight) :
    left = right ∧ behindLeft = behindRight := by
  have taken : ∀ {digits behind : List UInt8}, (∀ digit ∈ digits, isDigit digit = true) → (∀ octet ∈ behind.head?, isDigit octet = false) →
      (digits ++ behind).takeWhile isDigit = digits := by
    intro digits behind areDigits ends
    rw [List.takeWhile_append_of_pos areDigits]
    cases behind with
    | nil => rw [List.takeWhile_nil, List.append_nil]
    | cons octet behind => rw [List.takeWhile_cons_of_neg (by simp [ends octet rfl]), List.append_nil]
  have sameDigits := taken leftDigits leftEnds
  rw [same, taken rightDigits rightEnds] at sameDigits
  refine ⟨sameDigits.symm, ?_⟩
  rw [sameDigits] at same
  exact List.append_cancel_left same

theorem map_tolower_eq_star {tail : List UInt8} : tail.map tolower = [ascii '*'] ↔ tail = [ascii '*'] := by
  constructor
  · intro same
    obtain ⟨octet, rfl, isStar⟩ := List.map_eq_singleton_iff.mp same
    rw [(tolower_star octet).mp isStar]
  · rintro rfl
    rfl

theorem rfc2231NameParse_isSingle {base name : List UInt8} {info : Rfc2231Name} (isBase : IsBase base) (read : rfc2231NameParse name = some info) :
    IsSingle base name ↔ info.valid = true ∧ info.hasSection = false ∧ sameCaseless info.base base = true := by
  have form := rfc2231NameParse_form name
  rw [read] at form
  rw [IsSingle]
  generalize shown : some info = shape at form
  cases form with
  | starless starless =>
      cases shown
      exact ⟨fun same => absurd same (starless_not_starred starless), nofun⟩
  | baseless =>
      cases shown
      exact ⟨fun same => absurd same (baseless_not_starred isBase), nofun⟩
  | single otherBase =>
      cases shown
      rw [starred_iff isBase otherBase.2]
      exact ⟨fun same => ⟨rfl, rfl, same.1⟩, fun same => ⟨same.2.2, rfl⟩⟩
  | other otherBase notDigit =>
      cases shown
      rw [starred_iff isBase otherBase.2]
      exact ⟨nofun, nofun⟩
  | @digits otherBase' digits tail otherBase nonempty areDigits ends =>
      split_ifs at shown
      cases shown
      rw [List.append_assoc, List.cons_append, starred_iff isBase otherBase.2, List.map_eq_nil_iff, List.append_eq_nil_iff]
      exact ⟨fun same => absurd same.2.1 nonempty, nofun⟩

theorem rfc2231NameParse_isSection {base name : List UInt8} {info : Rfc2231Name} {number : Nat} {encoded : Bool} (isBase : IsBase base)
    (read : rfc2231NameParse name = some info) :
    IsSection base number encoded name ↔ info.valid = true ∧ info.hasSection = true ∧ info.number = number ∧ info.encoded = encoded ∧
      sameCaseless info.base base = true := by
  have form := rfc2231NameParse_form name
  rw [read] at form
  generalize shown : some info = shape at form
  constructor
  · rintro ⟨digits', nonempty', areDigits', isNumber, same⟩
    rw [List.append_assoc, List.cons_append] at same
    cases form with
    | starless starless => exact absurd same (starless_not_starred starless)
    | baseless => exact absurd same (baseless_not_starred isBase)
    | single otherBase =>
        obtain ⟨-, nothing⟩ := (starred_iff isBase otherBase.2).mp same
        exact absurd (List.append_eq_nil_iff.mp nothing.symm).1 nonempty'
    | @other _ octet rest otherBase notDigit =>
        obtain ⟨-, behind⟩ := (starred_iff isBase otherBase.2).mp same
        obtain ⟨digit, digits, rfl⟩ := List.exists_cons_of_ne_nil nonempty'
        rw [List.map_cons, List.cons_append, List.cons.injEq] at behind
        have isDigit' := areDigits' digit List.mem_cons_self
        rw [← behind.1, isDigit_tolower, notDigit] at isDigit'
        cases isDigit'
    | @digits other digits tail otherBase nonempty areDigits ends =>
        rw [List.append_assoc, List.cons_append] at same
        obtain ⟨sameBase, behind⟩ := (starred_iff isBase otherBase.2).mp same
        rw [List.map_append, map_tolower_digits areDigits] at behind
        have tailEnds : ∀ octet ∈ (tail.map tolower).head?, isDigit octet = false := by
          intro octet isHead
          rw [List.head?_map, Option.mem_def, Option.map_eq_some_iff] at isHead
          obtain ⟨first, isFirst, rfl⟩ := isHead
          rw [isDigit_tolower]
          exact ends first isFirst
        have markEnds : ∀ octet ∈ (if encoded then [ascii '*'] else []).head?, isDigit octet = false := by
          intro octet isHead
          split_ifs at isHead
          · rw [← Option.some.inj isHead]
            exact star_not_digit
          · cases isHead
        obtain ⟨rfl, mark⟩ := append_digits_inj areDigits areDigits' tailEnds markEnds behind
        split_ifs at shown
        cases shown
        cases encoded with
        | true =>
            rw [if_pos rfl, map_tolower_eq_star] at mark
            subst mark
            exact ⟨rfl, rfl, isNumber, rfl, sameBase⟩
        | false =>
            rw [if_neg Bool.false_ne_true, List.map_eq_nil_iff] at mark
            subst mark
            exact ⟨rfl, rfl, isNumber, rfl, sameBase⟩
  · rintro ⟨isValid, hasSection, rfl, rfl, same⟩
    cases form with
    | starless | baseless | single | other => cases shown; cases hasSection
    | @digits other digits tail otherBase nonempty areDigits ends =>
        split_ifs at shown
        cases shown
        refine ⟨digits, nonempty, areDigits, rfl, ?_⟩
        rw [List.append_assoc, List.cons_append, List.append_assoc, List.cons_append, starred_iff isBase otherBase.2]
        refine ⟨same, ?_⟩
        rw [List.map_append, map_tolower_digits areDigits, List.append_cancel_left_eq]
        by_cases marked : tail.head? = some (ascii '*')
        · obtain ⟨behind, rfl⟩ := List.head?_eq_some_iff.mp marked
          simp only [List.head?_cons, if_true, decide_eq_true_eq, List.tail_cons] at isValid
          rw [isValid]
          rfl
        · simp only [marked, if_false, decide_eq_true_eq] at isValid
          rw [isValid]
          rfl

theorem decimalValue_append_le (left right : List UInt8) : decimalValue left ≤ decimalValue (left ++ right) := by
  rw [decimalValue, decimalValue, List.foldl_append]
  exact le_foldl_digits right _

theorem rfc2231NameParse_fits (name : List UInt8) : (∃ info, rfc2231NameParse name = some info) ↔ SectionFits name := by
  have zero : decimalValue [] < 2 ^ 31 := by decide
  have form := rfc2231NameParse_form name
  generalize rfc2231NameParse name = shape at form
  cases form with
  | starless starless =>
      refine ⟨fun _ base digits tail split _ _ => ?_, fun _ => ⟨_, rfl⟩⟩
      rw [split] at starless
      exact absurd (List.mem_append_left _ (List.mem_append_right _ List.mem_cons_self)) starless
  | @baseless rest =>
      refine ⟨fun _ base digits tail split isBase _ => ?_, fun _ => ⟨_, rfl⟩⟩
      rw [List.append_assoc, List.cons_append] at split
      exact absurd (append_star_inj List.not_mem_nil isBase.2 |>.mp split).1 isBase.1.symm
  | single otherBase =>
      refine ⟨fun _ base digits tail split isBase _ => ?_, fun _ => ⟨_, rfl⟩⟩
      rw [List.append_assoc, List.cons_append] at split
      obtain ⟨-, nothing⟩ := (append_star_inj otherBase.2 isBase.2).mp split
      rw [(List.append_eq_nil_iff.mp nothing.symm).1]
      exact zero
  | @other _ octet rest otherBase notDigit =>
      refine ⟨fun _ base digits tail split isBase areDigits => ?_, fun _ => ⟨_, rfl⟩⟩
      rw [List.append_assoc, List.cons_append] at split
      obtain ⟨-, behind⟩ := (append_star_inj otherBase.2 isBase.2).mp split
      cases digits with
      | nil => exact zero
      | cons digit digits =>
          rw [List.cons_append, List.cons.injEq] at behind
          have isDigit' := areDigits digit List.mem_cons_self
          rw [← behind.1, notDigit] at isDigit'
          cases isDigit'
  | @digits other digits tail otherBase nonempty areDigits ends =>
      constructor
      · rintro ⟨info, shown⟩ base digits' tail' split isBase areDigits'
        split_ifs at shown with small
        rw [List.append_assoc, List.cons_append, List.append_assoc, List.cons_append] at split
        obtain ⟨-, behind⟩ := (append_star_inj otherBase.2 isBase.2).mp split
        rcases List.append_eq_append_iff.mp behind with ⟨more, rfl, atTail⟩ | ⟨more, rfl, -⟩
        · cases more with
          | nil => rwa [List.append_nil]
          | cons octet more =>
              have isDigit' := areDigits' octet (List.mem_append_right _ List.mem_cons_self)
              rw [ends octet (by rw [atTail]; rfl)] at isDigit'
              cases isDigit'
        · exact (decimalValue_append_le digits' more).trans_lt small
      · intro fits
        have small := fits other digits tail rfl otherBase areDigits
        exact ⟨_, if_pos small⟩

end Etpan.Mime
