import Etpan.Mime.ContentSpelling

namespace Etpan.Mime

open Etpan.Data Etpan.Imf

/-! Which contents `mailmime_content_parse` gives back. -/

structure SpelledParameter.Joined (param : SpelledParameter) : Prop extends param.Assigned where
  begins : param.beforeSemicolon.left = []

def StartsWhite (parameters : List SpelledParameter) : Prop :=
  ∀ param ∈ parameters.head?, ∀ piece ∈ param.beforeSemicolon.head?, piece.isComment = false

def Separated : List SpelledParameter → Prop
  | [] => True
  | param :: parameters => (param.value.isBare = true → StartsWhite parameters) ∧ Separated parameters

theorem parametersText_cons (param : SpelledParameter) (parameters : List SpelledParameter) :
    parametersText (param :: parameters) =
      param.beforeSemicolon.text ++ ascii ';' :: (param.afterSemicolon.text ++ (param.assignment ++ parametersText parameters)) := by
  simp only [parametersText, List.flatMap_cons, SpelledParameter.text, List.append_assoc, List.cons_append]

theorem parametersText_head (param : SpelledParameter) (parameters : List SpelledParameter) :
    ∃ ch rest, parametersText (param :: parameters) = ch :: rest ∧ ch ≠ 0 ∧
      (isAtext ch = false ↔ ∀ piece ∈ param.beforeSemicolon.head?, piece.isComment = false) := by
  rw [parametersText_cons]
  cases param.beforeSemicolon with
  | nil => exact ⟨ascii ';', _, rfl, by decide, fun _ _ member => (nomatch member), fun _ => by decide⟩
  | cons piece gap =>
      have only : ∀ property : GapPiece → Prop, (∀ other ∈ (piece :: gap).head?, property other) ↔ property piece :=
        fun property => ⟨fun all => all piece rfl, fun first other member => Option.some.inj member ▸ first⟩
      rw [only]
      cases piece with
      | blank tab =>
          cases tab with
          | true => exact ⟨ascii '\t', _, rfl, by decide, fun _ => rfl, fun _ => by decide⟩
          | false => exact ⟨ascii ' ', _, rfl, by decide, fun _ => rfl, fun _ => by decide⟩
      | fold tab => exact ⟨CR, _, rfl, by decide, fun _ => rfl, fun _ => by decide⟩
      | comment content isText => exact ⟨ascii '(', _, rfl, by decide, fun stops => absurd stops (by decide), fun white => (nomatch white)⟩

theorem stops_iff (parameters : List SpelledParameter) : Stops (parametersText parameters) ↔ StartsWhite parameters := by
  cases parameters with
  | nil => exact ⟨fun _ _ member => (nomatch member), fun _ => rfl⟩
  | cons param parameters =>
      obtain ⟨ch, rest, spelled, -, stops⟩ := parametersText_head param parameters
      rw [Stops, spelled]
      exact stops.trans ⟨fun first other member => Option.some.inj member ▸ first, fun all => all param rfl⟩

theorem parametersText_noNul (parameters : List SpelledParameter) : ∀ ch ∈ (parametersText parameters).head?, ch ≠ 0 := by
  cases parameters with
  | nil => exact fun _ member => (nomatch member)
  | cons param parameters =>
      obtain ⟨ch, rest, spelled, notNul, -⟩ := parametersText_head param parameters
      rw [spelled]
      exact fun other member => Option.some.inj member ▸ notNul

section Loop

variable (parametersList : List MailmimeParameter)

theorem semicolon_parse (param : SpelledParameter) (rest : List UInt8) :
    mailimfUnstrictCharParse (ascii ';') (param.beforeSemicolon.text ++ ascii ';' :: rest) =
      if param.beforeSemicolon.left = [] ∧ ascii ';' = ascii ';' then some rest else none :=
  Gap.unstrictChar (by decide) (by decide) rest param.beforeSemicolon (by decide)

theorem parametersLoop_joined {parameters : List SpelledParameter} (joined : ∀ param ∈ parameters, param.Joined) (separated : Separated parameters)
    {turns : Nat} (enough : parameters.length ≤ turns) :
    parametersLoop turns parametersList (parametersText parameters) =
      (parametersList ++ parameters.map fun param => (param.name.octets, param.value.read), []) := by
  induction parameters generalizing turns parametersList with
  | nil =>
      rw [List.map_nil, List.append_nil]
      cases turns with
      | zero => rfl
      | succ turns => rfl
  | cons param parameters ih =>
      obtain ⟨turns, rfl⟩ := Nat.exists_eq_add_of_lt enough
      have isJoined := joined param List.mem_cons_self
      have stops : param.value.isBare = true → Stops (parametersText parameters) := fun isBare => (stops_iff parameters).mpr (separated.1 isBare)
      have read := mailmimeParameterParse_assigned param isJoined.toAssigned stops
      have semicolon := semicolon_parse param (param.afterSemicolon.text ++ (param.assignment ++ parametersText parameters))
      rw [if_pos ⟨isJoined.begins, rfl⟩] at semicolon
      have rest := ih (parametersList ++ [(param.name.octets, param.value.read)]) (fun other member => joined other (List.mem_cons_of_mem _ member))
        separated.2 (Nat.le_add_right parameters.length turns)
      rw [parametersText_cons, parametersLoop, semicolon]
      dsimp only
      rw [read]
      dsimp only
      rw [rest, List.map_cons, List.append_assoc, List.singleton_append]

theorem parametersLoop_extends (turns : Nat) (text : List UInt8) : parametersList <+: (parametersLoop turns parametersList text).1 := by
  induction turns generalizing parametersList text with
  | zero => exact List.prefix_rfl
  | succ turns ih =>
      rw [parametersLoop]
      split
      · exact List.prefix_rfl
      · split
        · exact List.prefix_rfl
        · exact (List.prefix_append _ _).trans (ih _ _)

theorem parametersLoop_right {parameters : List SpelledParameter} {turns : Nat} {found : List MailmimeParameter}
    (read : (parametersLoop turns parametersList (parametersText parameters)).1 = parametersList ++ found)
    (same : List.Forall₂ (fun parsed (param : SpelledParameter) => SameParameter parsed param.name.octets param.value.value) found parameters) :
    (∀ param ∈ parameters, param.Joined) ∧ Separated parameters := by
  induction parameters generalizing turns parametersList found with
  | nil => exact ⟨fun _ member => absurd member List.not_mem_nil, trivial⟩
  | cons param parameters ih =>
      obtain ⟨parsed, others, first, later, rfl⟩ := List.forall₂_cons_right_iff.mp same
      have notOver : parametersList ≠ parametersList ++ parsed :: others := fun ends =>
        List.cons_ne_nil _ _ (List.append_cancel_left ((List.append_nil _).trans ends)).symm
      cases turns with
      | zero => exact absurd read notOver
      | succ turns =>
          rw [parametersText_cons, parametersLoop, semicolon_parse] at read
          split_ifs at read with begins
          · dsimp only at read
            cases assigned : mailmimeParameterParse (skipCfws (param.afterSemicolon.text ++ (param.assignment ++ parametersText parameters))) with
            | none =>
                rw [assigned] at read
                exact absurd read notOver
            | some result =>
                obtain ⟨made, behind⟩ := result
                rw [assigned] at read
                dsimp only at read
                obtain ⟨more, extended⟩ := parametersLoop_extends (parametersList ++ [made]) turns behind
                rw [read, List.append_assoc, List.append_cancel_left_eq, List.singleton_append, List.cons.injEq] at extended
                rw [extended.1] at assigned
                obtain ⟨isAssigned, stops, atEnd⟩ := mailmimeParameterParse_right param (parametersText_noNul parameters) assigned first
                rw [atEnd, extended.1] at read
                have split : parametersList ++ parsed :: others = parametersList ++ [parsed] ++ others := by
                  rw [List.append_assoc, List.singleton_append]
                obtain ⟨joined, separated⟩ := ih (parametersList ++ [parsed]) (read.trans split) later
                exact ⟨List.forall_mem_cons.mpr ⟨{ isAssigned with begins := begins.1 }, joined⟩,
                  fun isBare => (stops_iff parameters).mp (stops isBare), separated⟩
          · exact absurd read notOver

end Loop

def IsKnown (name : List UInt8) : Prop := ∃ known ∈ typeNames, sameCaseless name known.1 = true

/-- No name that the parser looks for is a shorter beginning of this one. -/
def TypeStands (name : List UInt8) : Prop :=
  ∀ known ∈ typeNames, sameCaseless (name.take known.1.length) known.1 = true → name.length = known.1.length

section Names

variable {name : List UInt8} {known : List UInt8 × MailmimeTypeName} (member : known ∈ typeNames)

include member

theorem typeNames_apart {other : List UInt8 × MailmimeTypeName} (isOther : other ∈ typeNames)
    (starts : sameCaseless (other.1.take known.1.length) known.1 = true) : known = other := by
  have apart : ∀ known ∈ typeNames, ∀ other ∈ typeNames, sameCaseless (other.1.take known.1.length) known.1 = true → known = other := by
    decide +kernel
  exact apart known member other isOther starts

theorem typeOf_known (same : sameCaseless name known.1 = true) : typeOf name = known.2 := by
  rw [typeOf]
  cases found : typeNames.find? fun known => sameCaseless name known.1 with
  | none =>
      have different := List.find?_eq_none.mp found known member
      exact absurd same different
  | some other =>
      have isSame := List.find?_some found
      have isOther := List.mem_of_find?_eq_some found
      have both : sameCaseless other.1 known.1 = true :=
        sameCaseless_iff.mpr ((sameCaseless_iff.mp isSame).symm.trans (sameCaseless_iff.mp same))
      have lengths := congrArg List.length (sameCaseless_iff.mp both)
      rw [List.length_map, List.length_map] at lengths
      have starts : sameCaseless (other.1.take known.1.length) known.1 = true := by
        rw [List.take_of_length_le lengths.le]
        exact both
      dsimp only
      rw [typeNames_apart member isOther starts]

theorem typeNames_notExtension (dtExtension : List UInt8) : known.2 ≠ .extension dtExtension := by
  have notExtension : ∀ known ∈ typeNames, ∀ dtExtension, known.2 ≠ .extension dtExtension := by
    simp only [typeNames, List.forall_mem_cons]
    exact ⟨nofun, nofun, nofun, nofun, nofun, nofun, nofun, nofun⟩
  exact notExtension known member dtExtension

theorem typeOf_longer (starts : sameCaseless (name.take known.1.length) known.1 = true) (longer : name.length ≠ known.1.length) :
    typeOf name ≠ known.2 := by
  rw [typeOf]
  cases found : typeNames.find? fun known => sameCaseless name known.1 with
  | none => exact (typeNames_notExtension member name).symm
  | some other =>
      have isSame := sameCaseless_iff.mp (@List.find?_some _ (fun known : List UInt8 × MailmimeTypeName => sameCaseless name known.1) _ _ found)
      have isOther := List.mem_of_find?_eq_some found
      have begins : sameCaseless (other.1.take known.1.length) known.1 = true := by
        rw [sameCaseless_iff, List.map_take, ← isSame, ← List.map_take]
        exact sameCaseless_iff.mp starts
      have lengths := congrArg List.length isSame
      rw [List.length_map, List.length_map] at lengths
      rw [typeNames_apart member isOther begins] at longer
      exact absurd lengths longer

end Names

theorem typeStands_known {name : List UInt8} (isKnown : IsKnown name) : TypeStands name := by
  obtain ⟨known, member, same⟩ := isKnown
  intro other isOther begins
  have lengths := congrArg List.length (sameCaseless_iff.mp same)
  rw [List.length_map, List.length_map] at lengths
  have isSame : sameCaseless (known.1.take other.1.length) other.1 = true := by
    rw [sameCaseless_iff, List.map_take, ← sameCaseless_iff.mp same, ← List.map_take]
    exact sameCaseless_iff.mp begins
  rw [typeNames_apart isOther member isSame]
  exact lengths

theorem typeOf_extension {name : List UInt8} (unknown : ∀ known ∈ typeNames, ¬ sameCaseless name known.1 = true) :
    typeOf name = .extension name := by
  have missing : typeNames.find? (fun known => sameCaseless name known.1) = none := List.find?_eq_none.mpr unknown
  rw [typeOf, missing]

theorem gap_head (gap : Gap) (rest : List UInt8) :
    ∃ ch more, gap.text ++ ascii '/' :: rest = ch :: more ∧ ∀ known ∈ typeNames, ∀ letter ∈ known.1, tolower letter ≠ tolower ch := by
  have others : ∀ ch ∈ [ascii '/', ascii '\t', ascii ' ', CR, ascii '('], ∀ known ∈ typeNames, ∀ letter ∈ known.1, tolower letter ≠ tolower ch := by
    decide +kernel
  cases gap with
  | nil => exact ⟨ascii '/', _, rfl, others _ (by decide)⟩
  | cons piece gap =>
      cases piece with
      | blank tab =>
          cases tab with
          | true => exact ⟨ascii '\t', _, rfl, others _ (by decide)⟩
          | false => exact ⟨ascii ' ', _, rfl, others _ (by decide)⟩
      | fold tab => exact ⟨CR, _, rfl, others _ (by decide)⟩
      | comment content isText => exact ⟨ascii '(', _, rfl, others _ (by decide)⟩

theorem mailimfTokenCaseInsensitiveParse_append (name : List UInt8) {known : List UInt8} {ch : UInt8} (more : List UInt8)
    (apart : ∀ letter ∈ known, tolower letter ≠ tolower ch) :
    mailimfTokenCaseInsensitiveParse known (name ++ ch :: more) = (mailimfTokenCaseInsensitiveParse known name).map (· ++ ch :: more) := by
  rw [mailimfTokenCaseInsensitiveParse, mailimfTokenCaseInsensitiveParse]
  by_cases within : known.length ≤ name.length
  · rw [List.take_append_of_le_length within, List.drop_append_of_le_length within]
    split_ifs
    · rfl
    · rfl
  · have longer : ¬ sameCaseless ((name ++ ch :: more).take known.length) known = true := by
      intro same
      have position : ((name ++ ch :: more).take known.length).map tolower = known.map tolower := sameCaseless_iff.mp same
      have there : ch ∈ (name ++ ch :: more).take known.length := by
        rw [List.take_append, List.mem_append]
        obtain ⟨count, isCount⟩ := Nat.exists_eq_succ_of_ne_zero (Nat.sub_ne_zero_of_lt (Nat.lt_of_not_le within))
        rw [isCount, List.take_succ_cons]
        exact .inr List.mem_cons_self
      have mapped := List.mem_map_of_mem (f := tolower) there
      rw [position] at mapped
      obtain ⟨letter, isLetter, same⟩ := List.mem_map.mp mapped
      exact apart letter isLetter same
    have shorter : ¬ sameCaseless (name.take known.length) known = true := by
      intro same
      have lengths := congrArg List.length (sameCaseless_iff.mp same)
      rw [List.length_map, List.length_map, List.length_take] at lengths
      omega
    rw [if_neg longer, if_neg shorter, Option.map_none]

section TypeParse

variable (type : TokenRun) (gap : Gap) (rest : List UInt8)

theorem typeNames_search :
    (typeNames.findSome? fun known =>
        (mailimfTokenCaseInsensitiveParse known.1 (type.octets ++ (gap.text ++ ascii '/' :: rest))).map fun rest => (known.2, rest)) =
      (typeNames.findSome? fun known => (mailimfTokenCaseInsensitiveParse known.1 type.octets).map fun rest => (known.2, rest)).map
        fun found => (found.1, found.2 ++ (gap.text ++ ascii '/' :: rest)) := by
  obtain ⟨ch, more, spelled, apart⟩ := gap_head gap rest
  rw [spelled]
  generalize typeNames = names at apart
  induction names with
  | nil => rfl
  | cons known names ih =>
      rw [List.findSome?_cons, List.findSome?_cons, mailimfTokenCaseInsensitiveParse_append _ more (apart known List.mem_cons_self),
        ih fun other member => apart other (List.mem_cons_of_mem known member)]
      cases mailimfTokenCaseInsensitiveParse known.1 type.octets with
      | none => rfl
      | some found => rfl

theorem mailmimeTypeParse_cases :
    (∃ known ∈ typeNames, sameCaseless (type.octets.take known.1.length) known.1 = true ∧
        mailmimeTypeParse (type.octets ++ (gap.text ++ ascii '/' :: rest)) =
          some (known.2, type.octets.drop known.1.length ++ (gap.text ++ ascii '/' :: rest))) ∨
      (∀ known ∈ typeNames, ¬ sameCaseless (type.octets.take known.1.length) known.1 = true) ∧
        mailmimeTypeParse (type.octets ++ (gap.text ++ ascii '/' :: rest)) =
          some (.extension (type.octets ++ (swallow gap).1), Gap.text (swallow gap).2 ++ ascii '/' :: rest) := by
  have search := typeNames_search type gap rest
  rw [mailmimeTypeParse, search]
  cases found : typeNames.findSome? fun known => (mailimfTokenCaseInsensitiveParse known.1 type.octets).map fun rest => (known.2, rest) with
  | none =>
      right
      have extension := @mailmimeTokenParse_run type gap (ascii '/' :: rest) rfl
      rw [List.findSome?_eq_none_iff] at found
      have unknown : ∀ known ∈ typeNames, ¬ sameCaseless (type.octets.take known.1.length) known.1 = true := by
        intro known member same
        have missing := found known member
        rw [mailimfTokenCaseInsensitiveParse, if_pos same] at missing
        cases missing
      refine ⟨unknown, ?_⟩
      simp only [Option.map_none, mailmimeExtensionTokenParse, extension, Option.map_some]
  | some result =>
      left
      obtain ⟨known, member, read⟩ := List.exists_of_findSome?_eq_some found
      rw [mailimfTokenCaseInsensitiveParse] at read
      split_ifs at read with same
      · rw [← Option.some.inj read]
        exact ⟨known, member, same, rfl⟩
      · cases read

theorem sameCaseless_take {name known : List UInt8} (same : sameCaseless name known = true) : sameCaseless (name.take known.length) known = true := by
  have lengths := congrArg List.length (sameCaseless_iff.mp same)
  rw [List.length_map, List.length_map] at lengths
  rw [List.take_of_length_le lengths.le]
  exact same

theorem mailmimeTypeParse_stands (stands : TypeStands type.octets) (ends : IsKnown type.octets ∨ EndsToken gap) :
    mailmimeTypeParse (type.octets ++ (gap.text ++ ascii '/' :: rest)) = some (typeOf type.octets, gap.text ++ ascii '/' :: rest) := by
  obtain ⟨known, member, starts, read⟩ | ⟨unknown, read⟩ := mailmimeTypeParse_cases type gap rest
  · have whole := stands known member starts
    rw [read, ← whole, List.drop_length, List.nil_append]
    rw [← whole, List.take_length] at starts
    rw [typeOf_known member starts]
  · have noKnown : ∀ known ∈ typeNames, ¬ sameCaseless type.octets known.1 = true := fun known member same =>
      unknown known member (sameCaseless_take same)
    obtain ⟨known, member, same⟩ | gapEnds := ends
    · exact absurd same (noKnown known member)
    · have same := swallow_text gap
      rw [gapEnds, List.nil_append] at same
      rw [read, gapEnds, List.append_nil, typeOf_extension noKnown, ← same]

theorem mailmimeTypeParse_right {behind : List UInt8}
    (read : mailmimeTypeParse (type.octets ++ (gap.text ++ ascii '/' :: rest)) = some (typeOf type.octets, behind)) :
    TypeStands type.octets ∧ (IsKnown type.octets ∨ EndsToken gap) := by
  obtain ⟨known, member, starts, isRead⟩ | ⟨unknown, isRead⟩ := mailmimeTypeParse_cases type gap rest
  · have isType : known.2 = typeOf type.octets := congrArg Prod.fst (Option.some.inj (isRead.symm.trans read))
    have whole : type.octets.length = known.1.length := by
      by_contra longer
      exact typeOf_longer member starts longer isType.symm
    have isKnown : sameCaseless type.octets known.1 = true := by
      rw [← whole, List.take_length] at starts
      exact starts
    exact ⟨typeStands_known ⟨known, member, isKnown⟩, .inl ⟨known, member, isKnown⟩⟩
  · have noKnown : ∀ known ∈ typeNames, ¬ sameCaseless type.octets known.1 = true := fun known member same =>
      unknown known member (sameCaseless_take same)
    have isType := congrArg Prod.fst (Option.some.inj (isRead.symm.trans read))
    rw [typeOf_extension noKnown] at isType
    have spelled : type.octets ++ (swallow gap).1 = type.octets ++ [] := (MailmimeTypeName.extension.inj isType).trans (List.append_nil _).symm
    exact ⟨fun known member starts => absurd starts (unknown known member), .inr (List.append_cancel_left spelled)⟩

end TypeParse

def SubtypeEnds (parameters : List SpelledParameter) : Prop := ∀ param ∈ parameters.head?, EndsToken param.beforeSemicolon

section Subtype

variable (subtype : TokenRun) (beforeSlash afterSlash : Gap) (parameters : List SpelledParameter)

theorem mailmimeTokenParse_subtype : ∃ gap rest, parametersText parameters = gap.text ++ rest ∧ rest.head?.any isToken = false ∧
    (EndsToken gap ↔ SubtypeEnds parameters) := by
  cases parameters with
  | nil => exact ⟨[], [], rfl, rfl, fun _ _ member => (nomatch member), fun _ => rfl⟩
  | cons param parameters =>
      exact ⟨param.beforeSemicolon, _, parametersText_cons param parameters, rfl, fun ends other member => Option.some.inj member ▸ ends,
        fun ends => ends param rfl⟩

theorem slash_parse (rest : List UInt8) : mailimfUnstrictCharParse (ascii '/') (beforeSlash.text ++ ascii '/' :: rest) =
    if beforeSlash.left = [] ∧ ascii '/' = ascii '/' then some rest else none :=
  Gap.unstrictChar (by decide) (by decide) rest beforeSlash (by decide)

theorem subtypeParse_ends (found : beforeSlash.left = []) (named : afterSlash.left = []) (ends : SubtypeEnds parameters) :
    subtypeParse (beforeSlash.text ++ ascii '/' :: (afterSlash.text ++ (subtype.octets ++ parametersText parameters))) =
      some (subtype.octets, parametersText parameters) := by
  obtain ⟨gap, rest, spelled, stops, gapEnds⟩ := mailmimeTokenParse_subtype parameters
  have isEnd := gapEnds.mpr ends
  have read := mailmimeTokenParse_run subtype gap stops
  have same := swallow_text gap
  rw [isEnd, List.nil_append] at same
  rw [isEnd, List.append_nil, ← same] at read
  rw [subtypeParse, slash_parse, if_pos ⟨found, rfl⟩]
  dsimp only
  rw [TokenRun.skipCfws, named, spelled]
  exact read

theorem subtypeParse_unknown (missing : beforeSlash.left ≠ []) (rest : List UInt8) (turns : Nat) :
    subtypeParse (beforeSlash.text ++ ascii '/' :: rest) = some (asciiText "unknown", beforeSlash.text ++ ascii '/' :: rest) ∧
      parametersLoop turns [] (beforeSlash.text ++ ascii '/' :: rest) = ([], beforeSlash.text ++ ascii '/' :: rest) := by
  have noSlash : mailimfUnstrictCharParse (ascii '/') (beforeSlash.text ++ ascii '/' :: rest) = none := by
    rw [slash_parse, if_neg fun both => missing both.1]
  have noSemicolon : mailimfUnstrictCharParse (ascii ';') (beforeSlash.text ++ ascii '/' :: rest) = none := by
    rw [Gap.unstrictChar (by decide) (by decide) rest beforeSlash (by decide), if_neg fun both => absurd both.2 (by decide)]
  constructor
  · rw [subtypeParse, noSlash]
  · cases turns with
    | zero => rfl
    | succ turns => rw [parametersLoop, noSemicolon]

theorem subtypeParse_right (found : beforeSlash.left = []) {behind : List UInt8}
    (read : subtypeParse (beforeSlash.text ++ ascii '/' :: (afterSlash.text ++ (subtype.octets ++ parametersText parameters))) =
      some (subtype.octets, behind)) :
    afterSlash.left = [] ∧ SubtypeEnds parameters ∧ behind = parametersText parameters := by
  obtain ⟨gap, rest, spelled, stops, gapEnds⟩ := mailmimeTokenParse_subtype parameters
  have isRead := mailmimeTokenParse_run subtype gap stops
  rw [subtypeParse, slash_parse, if_pos ⟨found, rfl⟩] at read
  dsimp only at read
  rw [TokenRun.skipCfws] at read
  have named : afterSlash.left = [] := by
    by_contra nonempty
    exact mailmimeTokenParse_left subtype afterSlash.left_white nonempty read [] (List.append_nil _).symm
  rw [named, spelled] at read
  have both := Option.some.inj (isRead.symm.trans read)
  have isEnd : EndsToken gap := List.append_cancel_left ((congrArg Prod.fst both).trans (List.append_nil _).symm)
  have same := swallow_text gap
  rw [isEnd, List.nil_append] at same
  refine ⟨named, gapEnds.mp isEnd, ?_⟩
  rw [spelled, same]
  exact (congrArg Prod.snd both).symm

end Subtype

section Starless

variable (charconv : List UInt8 → List UInt8 → Option (List UInt8))

theorem rfc2231NormalizeLoop_starless {parameters : List MailmimeParameter} (starless : ∀ param ∈ parameters, ascii '*' ∉ param.1)
    (seen : List (List UInt8)) {turns cur : Nat} (enough : parameters.length < turns + cur) :
    rfc2231NormalizeLoop charconv (turns + 1) parameters seen cur = some parameters := by
  induction turns generalizing cur with
  | zero =>
      have outside : parameters[cur]? = none := List.getElem?_eq_none (by omega)
      rw [rfc2231NormalizeLoop, outside]
  | succ turns ih =>
      rw [rfc2231NormalizeLoop]
      cases found : parameters[cur]? with
      | none => rfl
      | some param =>
          have cleared := rfc2231NameParse_starless (starless param (List.mem_of_getElem? found))
          have notValid : ¬ Rfc2231Name.cleared.valid = true ∨ rfc2231BaseWasSeen seen Rfc2231Name.cleared.base = true := .inl (by decide)
          simp only [cleared]
          rw [if_pos notValid]
          exact ih (by omega)

theorem mailmimeRfc2231NormalizeParameters_starless {parameters : List MailmimeParameter} (starless : ∀ param ∈ parameters, ascii '*' ∉ param.1) :
    mailmimeRfc2231NormalizeParameters charconv (parameters.length + 2) parameters = some parameters :=
  rfc2231NormalizeLoop_starless charconv starless [] (Nat.lt_succ_self _)

end Starless

theorem mailmimeValueParse_suffix {text : List UInt8} {found : List UInt8 × List UInt8} (parsed : mailmimeValueParse text = some found) :
    found.2 <:+ text := by
  have start := skipCfws_suffix text
  rw [mailmimeValueParse] at parsed
  obtain atom | ⟨-, quoted⟩ := Option.or_eq_some_iff.mp parsed
  · rw [mailimfAtomParse] at atom
    split_ifs at atom
    rw [← Option.some.inj atom]
    exact (List.dropWhile_suffix _).trans start
  · simp only [mailimfQuotedStringParse, Option.bind_eq_some_iff, Option.map_eq_some_iff] at quoted
    obtain ⟨content, opened, rest, closed, isFound⟩ := quoted
    rw [← isFound]
    have behind : rest <:+ (quotedStringLoop false content).2 := by
      rw [mailimfCharParse_some.mp closed]
      exact List.suffix_cons _ _
    have inside : content <:+ skipCfws text := by
      rw [mailimfCharParse_some.mp opened]
      exact List.suffix_cons _ _
    exact ((behind.trans (quotedStringLoop_suffix false content)).trans inside).trans start

theorem mailmimeParameterParse_octets {text : List UInt8} {param : MailmimeParameter} {behind : List UInt8}
    (parsed : mailmimeParameterParse text = some (param, behind)) : (∀ ch ∈ param.1, ch ∈ text) ∧ behind <:+ text := by
  simp only [mailmimeParameterParse, mailmimeAttributeParse, mailmimeTokenParse, mailimfCustomStringParse, Option.bind_eq_bind,
    Option.bind_eq_some_iff, Prod.exists] at parsed
  obtain ⟨name, afterName, named, afterEquals, equals, value, afterValue, isValue, result⟩ := parsed
  obtain ⟨isParam, isBehind⟩ := Prod.mk.inj (Option.some.inj result)
  split_ifs at named
  obtain ⟨isName, isAfter⟩ := Prod.mk.inj (Option.some.inj named)
  constructor
  · intro ch member
    rw [← isParam, ← isName, cString] at member
    exact List.takeWhile_subset _ (List.takeWhile_subset _ member)
  · rw [← isBehind]
    have nameSuffix : afterName <:+ text := by
      rw [← isAfter]
      exact List.dropWhile_suffix _
    exact (((mailmimeValueParse_suffix isValue).trans (skipCfws_suffix _)).trans (mailimfUnstrictCharParse_shorter equals).1).trans nameSuffix

theorem parametersLoop_octets (turns : Nat) (parametersList : List MailmimeParameter) (text : List UInt8) :
    ∀ param ∈ (parametersLoop turns parametersList text).1, param ∈ parametersList ∨ ∀ ch ∈ param.1, ch ∈ text := by
  induction turns generalizing parametersList text with
  | zero => exact fun param member => .inl member
  | succ turns ih =>
      rw [parametersLoop]
      cases semicolon : mailimfUnstrictCharParse (ascii ';') text with
      | none => exact fun param member => .inl member
      | some behind =>
          dsimp only
          cases parsed : mailmimeParameterParse (skipCfws behind) with
          | none => exact fun param member => .inl member
          | some result =>
              obtain ⟨made, rest⟩ := result
              obtain ⟨octets, suffix⟩ := mailmimeParameterParse_octets parsed
              have inside : skipCfws behind <:+ text := (skipCfws_suffix behind).trans (mailimfUnstrictCharParse_shorter semicolon).1
              intro param member
              obtain inList | inRest := ih (parametersList ++ [made]) rest param member
              · obtain earlier | isMade := List.mem_append.mp inList
                · exact .inl earlier
                · rw [List.mem_singleton.mp isMade]
                  exact .inr fun ch inName => inside.subset (octets ch inName)
              · exact .inr fun ch inName => (suffix.trans inside).subset (inRest ch inName)

/-- The gaps of a content let it be read. -/
structure SpelledContent.Fits (content : SpelledContent) : Prop where
  stands : TypeStands content.type.octets
  typeEnds : IsKnown content.type.octets ∨ EndsToken content.beforeSlash
  joined : (content.beforeSlash.left = [] ∧ content.afterSlash.left = [] ∧ SubtypeEnds content.parameters ∧
      (∀ param ∈ content.parameters, param.Joined) ∧ Separated content.parameters) ∨
    (content.beforeSlash.left ≠ [] ∧ content.subtype.octets = asciiText "unknown" ∧ content.parameters = [])

def ReadsContent (charconv : List UInt8 → List UInt8 → Option (List UInt8)) (content : SpelledContent) : Prop :=
  ∃ turns parsed behind, mailmimeContentParse charconv turns content.text = some (parsed, behind) ∧
    parsed.ctType = typeOf content.type.octets ∧ parsed.ctSubtype = content.subtype.octets ∧
    List.Forall₂ (fun parsed (param : SpelledParameter) => SameParameter parsed param.name.octets param.value.value) parsed.ctParameters
      content.parameters

section Contents

variable (charconv : List UInt8 → List UInt8 → Option (List UInt8)) {content : SpelledContent}

theorem content_start : skipCfws content.text = content.text := by
  have start := TokenRun.skipCfws content.type [] (content.beforeSlash.text ++ ascii '/' ::
    (content.afterSlash.text ++ (content.subtype.octets ++ parametersText content.parameters)))
  exact start

theorem parameters_length (parameters : List SpelledParameter) : parameters.length ≤ (parametersText parameters).length := by
  induction parameters with
  | nil => exact Nat.le_refl 0
  | cons param parameters ih =>
      rw [parametersText_cons, List.length_append, List.length_cons, List.length_cons, List.length_append, List.length_append]
      omega

theorem mailmimeContentParse_eq {text afterType ctSubtype afterSubtype behind : List UInt8} {ctType : MailmimeTypeName}
    {parametersList : List MailmimeParameter} (type : mailmimeTypeParse (skipCfws text) = some (ctType, afterType))
    (subtype : subtypeParse afterType = some (ctSubtype, afterSubtype))
    (loop : parametersLoop afterSubtype.length [] afterSubtype = (parametersList, behind)) (turns : Nat) :
    mailmimeContentParse charconv turns text =
      (mailmimeRfc2231NormalizeParameters charconv turns parametersList).map fun ctParameters => ({ ctType, ctSubtype, ctParameters }, behind) := by
  simp only [mailmimeContentParse, type, Option.bind_eq_bind, Option.bind_some, subtype, loop]
  cases mailmimeRfc2231NormalizeParameters charconv turns parametersList with
  | none => rfl
  | some ctParameters => rfl

theorem mailmimeContentParse_fits (fits : content.Fits) : ∃ turns behind, mailmimeContentParse charconv turns content.text =
    some ({ ctType := typeOf content.type.octets, ctSubtype := content.subtype.octets,
            ctParameters := content.parameters.map fun param => (param.name.octets, param.value.read) }, behind) := by
  have type := mailmimeTypeParse_stands content.type content.beforeSlash
    (content.afterSlash.text ++ (content.subtype.octets ++ parametersText content.parameters)) fits.stands fits.typeEnds
  rw [← SpelledContent.text, ← content_start] at type
  have starless : ∀ param ∈ content.parameters.map fun param => (param.name.octets, param.value.read), ascii '*' ∉ param.1 := by
    intro param member
    obtain ⟨spelled, -, rfl⟩ := List.mem_map.mp member
    exact spelled.notExtended
  have normalized := mailmimeRfc2231NormalizeParameters_starless charconv starless
  obtain ⟨found, named, ends, joined, separated⟩ | ⟨missing, isUnknown, noParameters⟩ := fits.joined
  · have subtype := subtypeParse_ends content.subtype content.beforeSlash content.afterSlash content.parameters found named ends
    have loop := parametersLoop_joined [] joined separated (parameters_length content.parameters)
    have parsed := mailmimeContentParse_eq charconv type subtype loop
    rw [List.nil_append] at parsed
    exact ⟨_, [], (parsed _).trans (by rw [normalized]; rfl)⟩
  · obtain ⟨subtype, loop⟩ := subtypeParse_unknown content.beforeSlash missing
      (content.afterSlash.text ++ (content.subtype.octets ++ parametersText content.parameters))
      (content.beforeSlash.text ++ ascii '/' :: (content.afterSlash.text ++ (content.subtype.octets ++ parametersText content.parameters))).length
    have parsed := mailmimeContentParse_eq charconv type subtype loop
    rw [noParameters, List.map_nil] at normalized ⊢
    rw [isUnknown]
    exact ⟨_, _, (parsed _).trans (by rw [normalized]; rfl)⟩

theorem SpelledContent.Fits.reads (fits : content.Fits) : ReadsContent charconv content := by
  obtain ⟨turns, behind, parsed⟩ := mailmimeContentParse_fits charconv fits
  refine ⟨turns, _, behind, parsed, rfl, rfl, ?_⟩
  rw [List.forall₂_map_left_iff]
  exact List.forall₂_same.mpr fun param _ => ⟨rfl, param.value.squeezeBlanks_read⟩

theorem ReadsContent.fits (noStar : ascii '*' ∉ content.text) (reads : ReadsContent charconv content) : content.Fits := by
  obtain ⟨turns, parsed, behind, isParsed, isType, isSubtype, same⟩ := reads
  simp only [mailmimeContentParse, content_start, Option.bind_eq_bind, Option.bind_eq_some_iff, Prod.exists] at isParsed
  obtain ⟨ctType, afterType, type, ctSubtype, afterSubtype, subtype, ctParameters, normalized, result⟩ := isParsed
  obtain ⟨isResult, -⟩ := Prod.mk.inj (Option.some.inj result)
  rw [← isResult] at isType isSubtype same
  dsimp only at isType isSubtype same
  rw [isType, SpelledContent.text] at type
  obtain ⟨stands, typeEnds⟩ := mailmimeTypeParse_right _ _ _ type
  have whole := mailmimeTypeParse_stands content.type content.beforeSlash
    (content.afterSlash.text ++ (content.subtype.octets ++ parametersText content.parameters)) stands typeEnds
  have isAfter := (Prod.mk.inj (Option.some.inj (whole.symm.trans type))).2
  rw [← isAfter, isSubtype] at subtype
  refine ⟨stands, typeEnds, ?_⟩
  by_cases found : content.beforeSlash.left = []
  · obtain ⟨named, ends, isEnd⟩ := subtypeParse_right content.subtype content.beforeSlash content.afterSlash content.parameters found subtype
    have starless : ∀ param ∈ (parametersLoop afterSubtype.length [] afterSubtype).1, ascii '*' ∉ param.1 := by
      intro param member inName
      obtain nothing | octets := parametersLoop_octets _ _ _ param member
      · exact absurd nothing List.not_mem_nil
      · have inText := octets _ inName
        rw [isEnd] at inText
        apply noStar
        simp only [SpelledContent.text, List.mem_append, List.mem_cons]
        exact .inr (.inr (.inr (.inr (.inr inText))))
    have unchanged := mailmimeRfc2231NormalizeParameters_starless charconv starless
    have isList := mailmimeRfc2231NormalizeParameters_unique unchanged normalized
    have list : (parametersLoop (parametersText content.parameters).length [] (parametersText content.parameters)).1 = [] ++ ctParameters := by
      rw [← isEnd, isList, List.nil_append]
    obtain ⟨joined, separated⟩ := parametersLoop_right [] list same
    exact .inl ⟨found, named, ends, joined, separated⟩
  · obtain ⟨unknown, loop⟩ := subtypeParse_unknown content.beforeSlash found
      (content.afterSlash.text ++ (content.subtype.octets ++ parametersText content.parameters)) afterSubtype.length
    obtain ⟨isUnknown, isEnd⟩ := Prod.mk.inj (Option.some.inj (unknown.symm.trans subtype))
    have noneFound := @mailmimeRfc2231NormalizeParameters_starless charconv [] fun _ member => absurd member List.not_mem_nil
    rw [isEnd] at loop
    rw [loop] at normalized
    have isNil := mailmimeRfc2231NormalizeParameters_unique noneFound normalized
    rw [← isNil, List.forall₂_nil_left_iff] at same
    exact .inr ⟨found, isUnknown.symm, same⟩

end Contents

end Etpan.Mime
