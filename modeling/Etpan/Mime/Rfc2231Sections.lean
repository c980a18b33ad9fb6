import Etpan.Mime.Rfc2231Names

namespace Etpan.Mime

open Etpan.Data Etpan.Imf

/-! The value that the parameters of one base stand for. -/

def FirstOf (kind : MailmimeParameter → Prop) (parameters : List MailmimeParameter) (param : MailmimeParameter) : Prop :=
  kind param ∧ ∃ before after, parameters = before ++ param :: after ∧ ∀ other ∈ before, ¬ kind other

/-- The parameters of the sections 0, 1, 2, … up to the first that is missing; each says whether it is encoded. -/
structure Continuation (parameters : List MailmimeParameter) (base : List UInt8) (pieces : List (MailmimeParameter × Bool)) : Prop where
  piece : ∀ number piece, pieces[number]? = some piece →
    FirstOf (fun param => ∃ encoded, IsSection base number encoded param.1) parameters piece.1 ∧ IsSection base number piece.2 piece.1.1
  stops : ∀ param ∈ parameters, ∀ encoded, ¬ IsSection base pieces.length encoded param.1

/-- The text that one section adds; the first one has the charset before its text when it is encoded. -/
def pieceText (number : Nat) (piece : MailmimeParameter × Bool) : List UInt8 :=
  if piece.2 then rfc2231AppendPercentDecoded (if number = 0 then (rfc2231ParseExtendedPrefix piece.1.2).2 else piece.1.2) else piece.1.2

def joinedText (pieces : List (MailmimeParameter × Bool)) : List UInt8 := pieces.zipIdx.flatMap fun (piece, number) => pieceText number piece

def joinedCharset : List (MailmimeParameter × Bool) → Option (List UInt8)
  | (param, true) :: _ => (rfc2231ParseExtendedPrefix param.2).1
  | _ => none

/-- The value for a base: that of its sections, or that of `base*` where there is no section 0. -/
inductive DecodedValue (charconv : List UInt8 → List UInt8 → Option (List UInt8)) (parameters : List MailmimeParameter) (base : List UInt8) :
    List UInt8 → Prop
  | sections {pieces} (nonempty : pieces ≠ []) (all : Continuation parameters base pieces) :
      DecodedValue charconv parameters base (rfc2231ConvertToUtf8 charconv (joinedCharset pieces) (joinedText pieces))
  | single {param} (missing : ∀ other ∈ parameters, ∀ encoded, ¬ IsSection base 0 encoded other.1)
      (first : FirstOf (fun other => IsSingle base other.1) parameters param) :
      DecodedValue charconv parameters base (rfc2231DecodeSingleExtended charconv param)

/-- The base has a section 0 or a parameter `base*`. -/
def Decodable (parameters : List MailmimeParameter) (base : List UInt8) : Prop :=
  IsBase base ∧ ∃ param ∈ parameters, IsSingle base param.1 ∨ ∃ encoded, IsSection base 0 encoded param.1

theorem IsSection.unique {base name : List UInt8} {number other : Nat} {encoded otherEncoded : Bool} (isBase : IsBase base) (nameFits : SectionFits name)
    (isSection : IsSection base number encoded name) (isOther : IsSection base other otherEncoded name) : number = other := by
  obtain ⟨info, read⟩ := (rfc2231NameParse_fits _).mpr nameFits
  obtain ⟨-, -, isNumber, -⟩ := (rfc2231NameParse_isSection isBase read).mp isSection
  obtain ⟨-, -, isOtherNumber, -⟩ := (rfc2231NameParse_isSection isBase read).mp isOther
  exact isNumber.symm.trans isOtherNumber

theorem exists_firstOf {kind : MailmimeParameter → Prop} {parameters : List MailmimeParameter} (found : ∃ param ∈ parameters, kind param) :
    ∃ param, FirstOf kind parameters param := by
  classical
  obtain ⟨param, isFound⟩ := Option.isSome_iff_exists.mp ((@List.find?_isSome _ parameters fun param => decide (kind param)).mpr
    (found.imp fun param isKind => ⟨isKind.1, decide_eq_true isKind.2⟩))
  obtain ⟨isKind, before, after, split, passed⟩ := List.find?_eq_some_iff_append.mp isFound
  exact ⟨param, of_decide_eq_true isKind, before, after, split, fun other member => by simpa using passed other member⟩

theorem FirstOf.mem {kind : MailmimeParameter → Prop} {parameters : List MailmimeParameter} {param : MailmimeParameter}
    (first : FirstOf kind parameters param) : param ∈ parameters := by
  obtain ⟨-, before, after, rfl, -⟩ := first
  exact List.mem_append_right _ List.mem_cons_self

theorem firstOf_filter {kind : MailmimeParameter → Prop} {parameters : List MailmimeParameter} {param : MailmimeParameter}
    {keeps : MailmimeParameter → Bool} (kept : ∀ other ∈ parameters, kind other → keeps other = true) :
    FirstOf kind (parameters.filter keeps) param ↔ FirstOf kind parameters param := by
  constructor
  · rintro ⟨isKind, before, after, split, passed⟩
    obtain ⟨left, right, rfl, rfl, rightKept⟩ := List.filter_eq_append_iff.mp split
    obtain ⟨skipped, rest, rfl, allSkipped, -, -⟩ := List.filter_eq_cons_iff.mp rightKept
    refine ⟨isKind, left ++ skipped, rest, (List.append_assoc _ _ _).symm, fun other member isOther => ?_⟩
    rcases List.mem_append.mp member with early | later
    · exact passed other (List.mem_filter.mpr ⟨early, kept other (List.mem_append_left _ early) isOther⟩) isOther
    · exact allSkipped other later (kept other (List.mem_append_right _ (List.mem_append_left _ later)) isOther)
  · rintro ⟨isKind, before, after, rfl, passed⟩
    refine ⟨isKind, before.filter keeps, after.filter keeps, ?_, fun other member => passed other (List.mem_filter.mp member).1⟩
    rw [List.filter_append, List.filter_cons_of_pos (kept param (List.mem_append_right _ List.mem_cons_self) isKind)]

/-- The sections are the same ones in every list with the same parameters of the base. -/
theorem Continuation.congr {parameters others : List MailmimeParameter} {base : List UInt8} {pieces : List (MailmimeParameter × Bool)}
    {ofBase : MailmimeParameter → Bool} (all : Continuation parameters base pieces)
    (hasSections : ∀ param ∈ parameters ++ others, ∀ number encoded, IsSection base number encoded param.1 → ofBase param = true)
    (same : others.filter ofBase = parameters.filter ofBase) : Continuation others base pieces where
  piece number piece isPiece := by
    obtain ⟨first, isSection⟩ := all.piece number piece isPiece
    have kept : ∀ other ∈ parameters ++ others, (∃ encoded, IsSection base number encoded other.1) → ofBase other = true :=
      fun other member ⟨encoded, isSection⟩ => hasSections other member number encoded isSection
    rw [← firstOf_filter fun other member => kept other (List.mem_append_left _ member), ← same,
      firstOf_filter fun other member => kept other (List.mem_append_right _ member)] at first
    exact ⟨first, isSection⟩
  stops param member encoded isSection := by
    have inBoth : param ∈ others.filter ofBase :=
      List.mem_filter.mpr ⟨member, hasSections param (List.mem_append_right _ member) _ encoded isSection⟩
    rw [same] at inBoth
    exact all.stops param (List.mem_filter.mp inBoth).1 encoded isSection

section Sections

variable {parameters : List MailmimeParameter} {base : List UInt8} (isBase : IsBase base) (fits : ∀ param ∈ parameters, SectionFits param.1)

include isBase fits

theorem rfc2231FindSection_first {number : Nat} {param : MailmimeParameter} {encoded : Bool}
    (first : FirstOf (fun other => ∃ encoded, IsSection base number encoded other.1) parameters param) (isSection : IsSection base number encoded param.1) :
    rfc2231FindSection base number parameters = some (some (param, encoded)) := by
  obtain ⟨-, before, after, rfl, passed⟩ := first
  induction before with
  | nil =>
      obtain ⟨info, read⟩ := (rfc2231NameParse_fits _).mpr (fits param List.mem_cons_self)
      obtain ⟨isValid, hasSection, isNumber, isEncoded, same⟩ := (rfc2231NameParse_isSection isBase read).mp isSection
      rw [List.nil_append, rfc2231FindSection, read]
      simp only [isValid, hasSection, isNumber, isEncoded, same, and_self, if_true]
  | cons other before ih =>
      obtain ⟨info, read⟩ := (rfc2231NameParse_fits _).mpr (fits other List.mem_cons_self)
      rw [List.cons_append, rfc2231FindSection, read]
      have passes : ¬ (info.valid = true ∧ info.hasSection = true ∧ info.number = number ∧ sameCaseless info.base base = true) := by
        rintro ⟨isValid, hasSection, isNumber, same⟩
        exact passed other List.mem_cons_self
          ⟨info.encoded, (rfc2231NameParse_isSection isBase read).mpr ⟨isValid, hasSection, isNumber, rfl, same⟩⟩
      simp only [passes, if_false]
      exact ih (fun kept member => passed kept (List.mem_cons_of_mem _ member)) fun kept member => fits kept (List.mem_cons_of_mem _ member)

theorem rfc2231FindSection_none {number : Nat} (missing : ∀ param ∈ parameters, ∀ encoded, ¬ IsSection base number encoded param.1) :
    rfc2231FindSection base number parameters = some none := by
  induction parameters with
  | nil => rfl
  | cons param parameters ih =>
      obtain ⟨info, read⟩ := (rfc2231NameParse_fits _).mpr (fits param List.mem_cons_self)
      have passes : ¬ (info.valid = true ∧ info.hasSection = true ∧ info.number = number ∧ sameCaseless info.base base = true) := by
        rintro ⟨isValid, hasSection, isNumber, same⟩
        exact missing param List.mem_cons_self info.encoded
          ((rfc2231NameParse_isSection isBase read).mpr ⟨isValid, hasSection, isNumber, rfl, same⟩)
      rw [rfc2231FindSection, read]
      simp only [passes, if_false]
      exact ih (fun kept member => fits kept (List.mem_cons_of_mem _ member)) fun kept member => missing kept (List.mem_cons_of_mem _ member)

instance (base name : List UInt8) : Decidable (IsSingle base name) := inferInstanceAs (Decidable (_ = _))

theorem rfc2231FindSingleExtended_eq :
    rfc2231FindSingleExtended base parameters = some (parameters.find? fun param => decide (IsSingle base param.1)) := by
  induction parameters with
  | nil => rfl
  | cons param parameters ih =>
      obtain ⟨info, read⟩ := (rfc2231NameParse_fits _).mpr (fits param List.mem_cons_self)
      have isSingle := rfc2231NameParse_isSingle isBase read
      rw [← Bool.not_eq_true] at isSingle
      rw [rfc2231FindSingleExtended, read, List.find?_cons]
      by_cases single : IsSingle base param.1
      · dsimp only
        rw [if_pos (isSingle.mp single), decide_eq_true single]
      · simp only [decide_eq_false single]
        rw [if_neg (fun found => single (isSingle.mpr found))]
        exact ih fun kept member => fits kept (List.mem_cons_of_mem _ member)

omit isBase in
theorem exists_missing (isBase : IsBase base) :
    ∃ number ≤ parameters.length, ∀ param ∈ parameters, ∀ encoded, ¬ IsSection base number encoded param.1 := by
  by_contra none'
  push Not at none'
  choose param member encoded isSection using fun number : Fin (parameters.length + 1) => none' number (Nat.lt_succ_iff.mp number.isLt)
  have injective : Function.Injective param := by
    intro number other same
    have isOther : IsSection base other (encoded other) (param number).1 := by
      rw [same]
      exact isSection other
    exact Fin.ext (IsSection.unique isBase (fits _ (member number)) (isSection number) isOther)
  have nodup : (List.ofFn param).Nodup := List.nodup_ofFn.mpr injective
  have subset : List.ofFn param ⊆ parameters := by
    intro other isOther
    obtain ⟨number, rfl⟩ := List.mem_ofFn.mp isOther
    exact member number
  have short := (nodup.subperm subset).length_le
  rw [List.length_ofFn] at short
  omega

theorem Continuation.short {pieces : List (MailmimeParameter × Bool)} (all : Continuation parameters base pieces) :
    pieces.length ≤ parameters.length := by
  obtain ⟨number, short, missing⟩ := exists_missing fits isBase
  by_contra long
  have inside : number < pieces.length := by omega
  obtain ⟨first, isSection⟩ := all.piece number pieces[number] (List.getElem?_eq_getElem inside)
  exact missing pieces[number].1 first.mem _ isSection

theorem exists_continuation : ∃ pieces, Continuation parameters base pieces := by
  classical
  have missing := exists_missing fits isBase
  obtain ⟨short, stops⟩ := Nat.find_spec missing
  have present : ∀ number : Fin (Nat.find missing), ∃ piece : MailmimeParameter × Bool,
      FirstOf (fun param => ∃ encoded, IsSection base number encoded param.1) parameters piece.1 ∧ IsSection base number piece.2 piece.1.1 := by
    intro number
    have found := Nat.find_min missing number.isLt
    push Not at found
    obtain ⟨param, member, encoded, isSection⟩ := found (number.isLt.le.trans short)
    have isKind : ∃ param ∈ parameters, ∃ encoded, IsSection base number encoded param.1 := ⟨param, member, encoded, isSection⟩
    obtain ⟨first, isFirst⟩ := exists_firstOf isKind
    obtain ⟨firstEncoded, firstSection⟩ := isFirst.1
    exact ⟨(first, firstEncoded), isFirst, firstSection⟩
  choose piece isPiece using present
  refine ⟨List.ofFn piece, { piece := ?_, stops := ?_ }⟩
  · intro number found isFound
    rw [List.getElem?_ofFn] at isFound
    split_ifs at isFound with inside
    rw [← Option.some.inj isFound]
    exact isPiece ⟨number, inside⟩
  · rw [List.length_ofFn]
    exact stops

end Sections

def Rfc2231Sections.add (state : Rfc2231Sections) (numbered : (MailmimeParameter × Bool) × Nat) : Rfc2231Sections :=
  { decoded := state.decoded ++ pieceText numbered.2 numbered.1
    charset := if numbered.2 = 0 ∧ numbered.1.2 then (rfc2231ParseExtendedPrefix numbered.1.1.2).1 else state.charset
    found := true }

theorem rfc2231DecodeSections_turn {parameters : List MailmimeParameter} {base : List UInt8} {turns number : Nat} {state : Rfc2231Sections}
    {piece : MailmimeParameter × Bool} (found : rfc2231FindSection base number parameters = some (some piece)) :
    rfc2231DecodeSections parameters base (turns + 1) number state =
      rfc2231DecodeSections parameters base turns (number + 1) (state.add (piece, number)) := by
  obtain ⟨param, encoded⟩ := piece
  rw [rfc2231DecodeSections, found]
  by_cases isFirst : number = 0 <;> cases encoded <;> simp [Rfc2231Sections.add, pieceText, isFirst]

theorem rfc2231DecodeSections_run {parameters : List MailmimeParameter} {base : List UInt8} {pieces : List (MailmimeParameter × Bool)} {turns number : Nat}
    {state : Rfc2231Sections} (found : ∀ index piece, pieces[index]? = some piece → rfc2231FindSection base (number + index) parameters = some (some piece))
    (stops : rfc2231FindSection base (number + pieces.length) parameters = some none) (enough : pieces.length < turns) :
    rfc2231DecodeSections parameters base turns number state = some ((pieces.zipIdx number).foldl Rfc2231Sections.add state) := by
  induction pieces generalizing turns number state with
  | nil =>
      obtain ⟨turns, rfl⟩ := Nat.exists_eq_succ_of_ne_zero (Nat.ne_of_gt enough)
      rw [rfc2231DecodeSections]
      rw [List.length_nil, Nat.add_zero] at stops
      rw [stops]
      rfl
  | cons piece pieces ih =>
      obtain ⟨turns, rfl⟩ := Nat.exists_eq_succ_of_ne_zero (Nat.ne_of_gt (Nat.zero_lt_of_lt enough))
      have foundFirst : rfc2231FindSection base number parameters = some (some piece) := found 0 piece rfl
      rw [rfc2231DecodeSections_turn foundFirst, List.zipIdx_cons, List.foldl_cons]
      refine ih (fun index other isOther => ?_) ?_ (Nat.lt_of_succ_lt_succ enough)
      · rw [Nat.add_assoc, Nat.add_comm 1 index]
        exact found (index + 1) other isOther
      · rw [Nat.add_assoc, Nat.add_comm 1]
        exact stops

theorem foldl_add (pieces : List (MailmimeParameter × Bool)) (number : Nat) (state : Rfc2231Sections) :
    (pieces.zipIdx number).foldl Rfc2231Sections.add state =
      { decoded := state.decoded ++ (pieces.zipIdx number).flatMap fun (piece, number) => pieceText number piece
        charset := if number = 0 ∧ (pieces.head?.map Prod.snd) = some true then joinedCharset pieces else state.charset
        found := state.found || !pieces.isEmpty } := by
  induction pieces generalizing number state with
  | nil => simp
  | cons piece pieces ih =>
      rw [List.zipIdx_cons, List.foldl_cons, ih, List.flatMap_cons]
      obtain ⟨param, encoded⟩ := piece
      cases encoded <;> simp [Rfc2231Sections.add, joinedCharset]

section DecodeForBase

variable (charconv : List UInt8 → List UInt8 → Option (List UInt8)) {parameters : List MailmimeParameter} {base : List UInt8}
  (isBase : IsBase base) (fits : ∀ param ∈ parameters, SectionFits param.1)

include isBase fits

theorem rfc2231DecodeForBase_eq {pieces : List (MailmimeParameter × Bool)} (all : Continuation parameters base pieces) :
    rfc2231DecodeForBase charconv parameters base = some
      (if pieces ≠ [] then some (rfc2231ConvertToUtf8 charconv (joinedCharset pieces) (joinedText pieces))
      else (parameters.find? fun param => decide (IsSingle base param.1)).map (rfc2231DecodeSingleExtended charconv)) := by
  have run := @rfc2231DecodeSections_run parameters base pieces (parameters.length + 1) 0 { decoded := [], charset := none, found := false }
    (fun index piece isPiece => by
      obtain ⟨first, isSection⟩ := all.piece index piece isPiece
      rw [Nat.zero_add]
      exact rfc2231FindSection_first isBase fits first isSection)
    (by
      rw [Nat.zero_add]
      exact rfc2231FindSection_none isBase fits all.stops)
    (Nat.lt_succ_of_le (all.short isBase fits))
  rw [rfc2231DecodeForBase, rfc2231DecodeContinuation, run, foldl_add]
  cases pieces with
  | nil =>
      simp only [List.isEmpty_nil, Bool.not_true, Bool.or_false, Bool.false_eq_true, if_false, ne_eq, not_true_eq_false]
      rw [rfc2231FindSingleExtended_eq isBase fits]
      cases parameters.find? fun param => decide (IsSingle base param.1) <;> rfl
  | cons piece pieces =>
      obtain ⟨param, encoded⟩ := piece
      cases encoded <;> simp [joinedText, joinedCharset]

theorem rfc2231DecodeForBase_none (notDecodable : ¬ Decodable parameters base) : rfc2231DecodeForBase charconv parameters base = some none := by
  have nothing : Continuation parameters base [] :=
    { piece := fun _ _ impossible => by cases impossible
      stops := fun param member encoded isSection => notDecodable ⟨isBase, param, member, .inr ⟨encoded, isSection⟩⟩ }
  have single : (parameters.find? fun param => decide (IsSingle base param.1)) = none := by
    rw [List.find?_eq_none]
    intro param member
    rw [decide_eq_true_eq]
    exact fun isSingle => notDecodable ⟨isBase, param, member, .inl isSingle⟩
  rw [rfc2231DecodeForBase_eq charconv isBase fits nothing, single]
  rfl

theorem rfc2231DecodeForBase_value (decodable : Decodable parameters base) :
    ∃ value, rfc2231DecodeForBase charconv parameters base = some (some value) ∧ DecodedValue charconv parameters base value := by
  obtain ⟨pieces, all⟩ := exists_continuation isBase fits
  rw [rfc2231DecodeForBase_eq charconv isBase fits all]
  by_cases nonempty : pieces ≠ []
  · rw [if_pos nonempty]
    exact ⟨_, rfl, .sections nonempty all⟩
  rw [not_not] at nonempty
  subst nonempty
  obtain ⟨-, param, member, isSingle | ⟨encoded, isSection⟩⟩ := decodable
  · obtain ⟨first, isFirst⟩ := Option.isSome_iff_exists.mp ((@List.find?_isSome _ parameters fun other => decide (IsSingle base other.1)).mpr
      ⟨param, member, decide_eq_true isSingle⟩)
    obtain ⟨firstSingle, before, after, split, passed⟩ := List.find?_eq_some_iff_append.mp isFirst
    rw [isFirst]
    refine ⟨_, rfl, .single all.stops ⟨of_decide_eq_true firstSingle, before, after, split, fun other isOther => ?_⟩⟩
    simpa using passed other isOther
  · exact absurd isSection (all.stops param member encoded)

theorem rfc2231DecodeForBase_congr {others : List MailmimeParameter} (othersFit : ∀ param ∈ others, SectionFits param.1) {ofBase : MailmimeParameter → Bool}
    (hasSingles : ∀ param ∈ parameters ++ others, IsSingle base param.1 → ofBase param = true)
    (hasSections : ∀ param ∈ parameters ++ others, ∀ number encoded, IsSection base number encoded param.1 → ofBase param = true)
    (same : others.filter ofBase = parameters.filter ofBase) :
    rfc2231DecodeForBase charconv others base = rfc2231DecodeForBase charconv parameters base := by
  obtain ⟨pieces, all⟩ := exists_continuation isBase fits
  have allOthers := all.congr hasSections same
  have atFilter : ∀ list : List MailmimeParameter, list ⊆ parameters ++ others →
      (list.filter ofBase).find? (fun param => decide (IsSingle base param.1)) = list.find? fun param => decide (IsSingle base param.1) := by
    intro list subset
    rw [List.find?_filter]
    refine List.find?_congr fun param member => ?_
    rw [decide_eq_decide, decide_eq_true_eq]
    exact ⟨fun found => found.2, fun isSingle => ⟨hasSingles param (subset member) isSingle, isSingle⟩⟩
  have single : (others.find? fun param => decide (IsSingle base param.1)) = parameters.find? fun param => decide (IsSingle base param.1) := by
    rw [← atFilter others (List.subset_append_right _ _), same, atFilter parameters (List.subset_append_left _ _)]
  rw [rfc2231DecodeForBase_eq charconv isBase fits all, rfc2231DecodeForBase_eq charconv isBase othersFit allOthers, single]

end DecodeForBase

end Etpan.Mime
