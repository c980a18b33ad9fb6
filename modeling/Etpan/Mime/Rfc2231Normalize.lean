import Etpan.Data.Collapse
import Etpan.Mime.Rfc2231Sections

namespace Etpan.Mime

open Etpan.Data Etpan.Imf

/-! What the loop of `mailmime_rfc2231_normalize_parameters` makes of a list.

`Collapse` is that loop: every base is a group of parameters, and the loop replaces a group when it looks at
a parameter that has sections. -/

def IsExtended (base : List UInt8) (param : MailmimeParameter) : Prop :=
  IsSingle base param.1 ∨ ∃ number encoded, IsSection base number encoded param.1

def Belongs (base : List UInt8) (param : MailmimeParameter) : Prop := sameCaseless param.1 base = true ∨ IsExtended base param

def baseOf (param : MailmimeParameter) : List UInt8 :=
  match rfc2231NameParse param.1 with
  | some info => if info.valid then info.base.map tolower else param.1.map tolower
  | none => param.1.map tolower

section Names

theorem rfc2231NameParse_valid {name : List UInt8} {info : Rfc2231Name} (read : rfc2231NameParse name = some info) (isValid : info.valid = true) :
    IsBase info.base := by
  have form := rfc2231NameParse_form name
  rw [read] at form
  generalize shown : some info = shape at form
  cases form with
  | starless | baseless | other => cases shown; cases isValid
  | single isBase => cases shown; exact isBase
  | digits isBase =>
      split_ifs at shown
      cases shown
      exact isBase

variable {base : List UInt8} {param : MailmimeParameter} {info : Rfc2231Name} (isBase : IsBase base)

include isBase

theorem isExtended_iff (read : rfc2231NameParse param.1 = some info) : IsExtended base param ↔ info.valid = true ∧ sameCaseless info.base base = true := by
  rw [IsExtended, rfc2231NameParse_isSingle isBase read]
  simp only [rfc2231NameParse_isSection isBase read]
  constructor
  · rintro (⟨isValid, -, same⟩ | ⟨_, _, isValid, -, -, -, same⟩)
    · exact ⟨isValid, same⟩
    · exact ⟨isValid, same⟩
  · rintro ⟨isValid, same⟩
    rcases Bool.eq_false_or_eq_true info.hasSection with hasSection | single
    · exact .inr ⟨_, _, isValid, hasSection, rfl, rfl, same⟩
    · exact .inl ⟨isValid, single, same⟩

omit isBase in
theorem IsExtended.star_mem (extended : IsExtended base param) : ascii '*' ∈ param.1 := by
  rw [← star_mem_map]
  rcases extended with isSingle | ⟨_, _, digits, -, -, -, same⟩
  · rw [isSingle]
    exact List.mem_append_right _ List.mem_cons_self
  · rw [same, List.append_assoc, List.cons_append]
    exact List.mem_append_right _ List.mem_cons_self

theorem not_sameCaseless_of_star (starred : ascii '*' ∈ param.1) : sameCaseless param.1 base = false := by
  rw [← Bool.not_eq_true, sameCaseless_iff]
  intro same
  rw [← star_mem_map, same, star_mem_map] at starred
  exact isBase.2 starred

theorem belongs_iff (fits : SectionFits param.1) : Belongs base param ↔ baseOf param = base.map tolower := by
  obtain ⟨info, read⟩ := (rfc2231NameParse_fits _).mpr fits
  rw [Belongs, isExtended_iff isBase read, baseOf, read]
  rcases Bool.eq_false_or_eq_true info.valid with isValid | invalid
  · have itself : IsExtended info.base param :=
      (isExtended_iff (rfc2231NameParse_valid read isValid) read).mpr ⟨isValid, sameCaseless_iff.mpr rfl⟩
    have starred := itself.star_mem
    simp only [not_sameCaseless_of_star isBase starred, isValid, Bool.false_eq_true, false_or, true_and, if_true]
    exact sameCaseless_iff
  · simp only [invalid, Bool.false_eq_true, false_and, or_false, if_false]
    exact sameCaseless_iff

theorem mailmimeRfc2231ParameterHasBase_eq (fits : SectionFits param.1) :
    mailmimeRfc2231ParameterHasBase param.1 base = some (decide (baseOf param = base.map tolower)) := by
  obtain ⟨info, read⟩ := (rfc2231NameParse_fits _).mpr fits
  have belongs := belongs_iff isBase fits
  rw [Belongs, isExtended_iff isBase read] at belongs
  rw [mailmimeRfc2231ParameterHasBase, read]
  rcases Bool.eq_false_or_eq_true (sameCaseless param.1 base) with same | differs
  · rw [if_pos same, decide_eq_true (belongs.mp (.inl same))]
  · rw [differs] at belongs ⊢
    rw [if_neg Bool.false_ne_true, Option.some.injEq, Bool.eq_iff_iff, decide_eq_true_eq, Bool.and_eq_true, ← belongs]
    exact ⟨.inr, fun found => found.resolve_left Bool.false_ne_true⟩

end Names

theorem rfc2231RemoveBaseParameters_eq {base : List UInt8} {parameters : List MailmimeParameter} (isBase : IsBase base)
    (fits : ∀ param ∈ parameters, SectionFits param.1) :
    rfc2231RemoveBaseParameters base parameters = some (parameters.filter fun param => baseOf param ≠ base.map tolower) := by
  induction parameters with
  | nil => rfl
  | cons param parameters ih =>
      rw [rfc2231RemoveBaseParameters, mailmimeRfc2231ParameterHasBase_eq isBase (fits param List.mem_cons_self)]
      rw [ih fun other member => fits other (List.mem_cons_of_mem _ member)]
      by_cases ofBase : baseOf param = base.map tolower
      · simp only [ofBase, decide_true, if_true]
        rw [List.filter_cons_of_neg (by simp [ofBase])]
      · simp only [ofBase, decide_false, Bool.false_eq_true, if_false]
        rw [List.filter_cons_of_pos (by simp [ofBase])]

theorem starless_plain {base value : List UInt8} (isBase : IsBase base) :
    rfc2231NameParse base = some .cleared ∧ SectionFits base ∧ baseOf (base, value) = base.map tolower := by
  have read := rfc2231NameParse_starless isBase.2
  refine ⟨read, (rfc2231NameParse_fits base).mp ⟨_, read⟩, ?_⟩
  rw [baseOf, read]
  rfl

section Simulation

variable (charconv : List UInt8 → List UInt8 → Option (List UInt8)) (parameters : List MailmimeParameter)

def replacement (param : MailmimeParameter) : Option MailmimeParameter :=
  match rfc2231NameParse param.1 with
  | none => none
  | some info =>
      if info.valid then
        match rfc2231DecodeForBase charconv parameters info.base with
        | some (some value) => some (info.base, value)
        | _ => none
      else none

def isReplacer (param : MailmimeParameter) : Bool := (replacement charconv parameters param).isSome

def madeFor (param : MailmimeParameter) : MailmimeParameter := (replacement charconv parameters param).getD param

structure Running (current : List MailmimeParameter) (seen : List (List UInt8)) : Prop where
  fits : ∀ param ∈ current, SectionFits param.1
  same : ∀ param ∈ current, replacement charconv current param = replacement charconv parameters param
  unseen : ∀ param ∈ current, ∀ info, rfc2231NameParse param.1 = some info → info.valid = true → rfc2231BaseWasSeen seen info.base = false

variable {charconv parameters}

theorem isReplacer_none {param : MailmimeParameter} (found : replacement charconv parameters param = none) :
    ¬ isReplacer charconv parameters param = true := by
  rw [isReplacer, found]
  exact Bool.false_ne_true

theorem isReplacer_some {param made : MailmimeParameter} (found : replacement charconv parameters param = some made) :
    isReplacer charconv parameters param = true ∧ madeFor charconv parameters param = made := by
  rw [isReplacer, madeFor, found]
  exact ⟨rfl, rfl⟩

theorem replacement_some {param : MailmimeParameter} {made : MailmimeParameter} (found : replacement charconv parameters param = some made) :
    ∃ info value, rfc2231NameParse param.1 = some info ∧ info.valid = true ∧ rfc2231DecodeForBase charconv parameters info.base = some (some value) ∧
      made = (info.base, value) := by
  rw [replacement] at found
  split at found
  · cases found
  · next info read =>
      split_ifs at found with isValid
      split at found
      · next value decoded =>
          exact ⟨info, value, read, isValid, decoded, (Option.some.inj found).symm⟩
      · cases found

theorem replacement_plain {base value : List UInt8} (isBase : IsBase base) : replacement charconv parameters (base, value) = none := by
  rw [replacement, (@starless_plain base value isBase).1]
  rfl

theorem Running.replace {current : List MailmimeParameter} {seen : List (List UInt8)} {base value : List UInt8}
    (running : Running charconv parameters current seen) (isBase : IsBase base) :
    Running charconv parameters (current.filter (fun other => baseOf other ≠ base.map tolower) ++ [(base, value)]) (seen ++ [base]) := by
  obtain ⟨plain, plainFits, plainBase⟩ := @starless_plain base value isBase
  have fits : ∀ param ∈ current.filter (fun other => baseOf other ≠ base.map tolower) ++ [(base, value)], SectionFits param.1 := by
    intro param member
    rcases List.mem_append.mp member with old | new
    · exact running.fits param (List.mem_filter.mp old).1
    · rw [List.mem_singleton.mp new]
      exact plainFits
  refine { fits := fits, same := fun param member => ?_, unseen := fun param member info read isValid => ?_ }
  · rcases List.mem_append.mp member with old | new
    · obtain ⟨wasThere, differs⟩ := List.mem_filter.mp old
      obtain ⟨info, read⟩ := (rfc2231NameParse_fits _).mpr (running.fits param wasThere)
      rw [← running.same param wasThere, replacement, replacement, read]
      rcases Bool.eq_false_or_eq_true info.valid with isValid | invalid
      · have otherBase := rfc2231NameParse_valid read isValid
        have allFit : ∀ other ∈ current ++ (current.filter (fun other => baseOf other ≠ base.map tolower) ++ [(base, value)]), SectionFits other.1 := by
          intro other member
          rcases List.mem_append.mp member with old | new
          · exact running.fits other old
          · exact fits other new
        have ofOther : ∀ other ∈ current ++ (current.filter (fun other => baseOf other ≠ base.map tolower) ++ [(base, value)]),
            IsExtended info.base other → decide (baseOf other = info.base.map tolower) = true :=
          fun other member extended => decide_eq_true ((belongs_iff otherBase (allFit other member)).mp (.inr extended))
        have group : baseOf param = info.base.map tolower := by
          rw [baseOf, read]
          simp only [isValid, if_true]
        have notOther : base.map tolower ≠ info.base.map tolower := by
          rw [← group]
          exact (of_decide_eq_true differs).symm
        have sameBase : (current.filter (fun other => baseOf other ≠ base.map tolower) ++ [(base, value)]).filter
              (fun other => decide (baseOf other = info.base.map tolower)) =
            current.filter fun other => decide (baseOf other = info.base.map tolower) := by
          rw [List.filter_append, List.filter_cons_of_neg (by simp [plainBase, notOther]), List.filter_nil, List.append_nil, List.filter_filter]
          refine List.filter_congr fun other _ => ?_
          rw [← Bool.decide_and, decide_eq_decide]
          exact ⟨fun both => both.1, fun isOther => ⟨isOther, isOther ▸ notOther.symm⟩⟩
        have decoded := rfc2231DecodeForBase_congr charconv otherBase running.fits fits
          (fun other member isSingle => ofOther other member (.inl isSingle))
          (fun other member number encoded isSection => ofOther other member (.inr ⟨number, encoded, isSection⟩)) sameBase
        simp only [decoded]
      · simp only [invalid, Bool.false_eq_true, if_false]
    · rw [List.mem_singleton.mp new, replacement_plain isBase, replacement_plain isBase]
  · rcases List.mem_append.mp member with old | new
    · obtain ⟨wasThere, differs⟩ := List.mem_filter.mp old
      have before := running.unseen param wasThere info read isValid
      rw [rfc2231BaseWasSeen] at before ⊢
      rw [List.any_append, before, Bool.false_or, List.any_cons, List.any_nil, Bool.or_false, ← Bool.not_eq_true, sameCaseless_iff]
      intro same
      rw [decide_eq_true_eq, baseOf, read] at differs
      simp only [isValid, if_true] at differs
      exact differs same.symm
    · rw [List.mem_singleton.mp new, plain] at read
      cases read
      cases isValid

variable (charconv parameters) in
theorem rfc2231NormalizeLoop_eq (turns cur : Nat) {current : List MailmimeParameter} {seen : List (List UInt8)}
    (running : Running charconv parameters current seen) :
    rfc2231NormalizeLoop charconv turns current seen cur =
      collapse baseOf (isReplacer charconv parameters) (madeFor charconv parameters) turns current cur := by
  induction turns generalizing current seen cur with
  | zero => rfl
  | succ turns ih =>
      rw [rfc2231NormalizeLoop, collapse]
      rcases here : current[cur]? with _ | param
      · rfl
      have member := List.mem_of_getElem? here
      obtain ⟨info, read⟩ := (rfc2231NameParse_fits _).mpr (running.fits param member)
      have same := running.same param member
      rw [replacement, read] at same
      dsimp only at same ⊢
      rw [read]
      dsimp only
      rcases Bool.eq_false_or_eq_true info.valid with isValid | invalid
      · have isBase := rfc2231NameParse_valid read isValid
        have unseen := running.unseen param member info read isValid
        rw [if_neg (by simp [isValid, unseen])]
        rw [if_pos isValid] at same
        have group : baseOf param = info.base.map tolower := by
          rw [baseOf, read]
          simp only [isValid, if_true]
        rcases decoded : rfc2231DecodeForBase charconv current info.base with _ | _ | value
        · obtain ⟨result, found⟩ : ∃ result, rfc2231DecodeForBase charconv current info.base = some result := by
            obtain ⟨pieces, all⟩ := exists_continuation isBase running.fits
            exact ⟨_, rfc2231DecodeForBase_eq charconv isBase running.fits all⟩
          rw [decoded] at found
          cases found
        · rw [decoded] at same
          rw [if_neg (isReplacer_none same.symm)]
          exact ih (cur + 1) running
        · rw [decoded] at same
          obtain ⟨isLive, made⟩ := isReplacer_some same.symm
          rw [if_pos isLive, made, rfc2231RemoveBaseParameters_eq isBase running.fits, group]
          exact ih 1 (running.replace isBase)
      · rw [if_pos (by simp [invalid])]
        rw [if_neg (by simp [invalid])] at same
        rw [if_neg (isReplacer_none same.symm)]
        exact ih (cur + 1) running

end Simulation

end Etpan.Mime
