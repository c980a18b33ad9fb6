import Etpan.Mime.Rfc2231Normalize

namespace Etpan.Mime

open Etpan.Data Etpan.Imf

/-! When `mailmime_rfc2231_normalize_parameters` normalises all bases. -/

/-- Nothing is left before the parameter once all before it were looked at: everything there belongs to
bases that were replaced. The loop starts again with the second parameter, and so it passes over this one. -/
def StandsAlone (parameters : List MailmimeParameter) (place : Nat) : Prop :=
  0 < place ∧ ∀ earlier < place, ∃ (other : Nat) (_ : other < place),
    (∃ base param past, parameters[other]? = some param ∧ parameters[earlier]? = some past ∧
      Decodable parameters base ∧ IsExtended base param ∧ Belongs base past) ∧ ¬ StandsAlone parameters other
termination_by place

def IsReplaced (parameters : List MailmimeParameter) (param : MailmimeParameter) : Prop := ∃ base, Decodable parameters base ∧ Belongs base param

open Classical in
/-- The parameters of each base that can be decoded are replaced by one, and the others are kept. -/
structure Normalized (charconv : List UInt8 → List UInt8 → Option (List UInt8)) (parameters out : List MailmimeParameter) : Prop where
  replaced : ∀ base, Decodable parameters base → ∃ param, out.filter (fun other => Belongs base other) = [param] ∧
    sameCaseless param.1 base = true ∧ DecodedValue charconv parameters base param.2
  kept : out.filter (fun param => ¬ IsReplaced parameters param) = parameters.filter (fun param => ¬ IsReplaced parameters param)

section Overflow

variable {charconv : List UInt8 → List UInt8 → Option (List UInt8)} {parameters : List MailmimeParameter} {base : List UInt8}

theorem rfc2231FindSection_fits {number : Nat} (missing : rfc2231FindSection base number parameters = some none) :
    ∀ param ∈ parameters, SectionFits param.1 := by
  induction parameters with
  | nil => exact fun _ member => absurd member List.not_mem_nil
  | cons param parameters ih =>
      rw [rfc2231FindSection] at missing
      split at missing
      · cases missing
      · next info read =>
          split_ifs at missing
          · cases missing
          intro other member
          rcases List.mem_cons.mp member with rfl | later
          · exact (rfc2231NameParse_fits _).mp ⟨info, read⟩
          · exact ih missing other later

theorem rfc2231DecodeSections_fits {turns number : Nat} {state result : Rfc2231Sections}
    (decoded : rfc2231DecodeSections parameters base turns number state = some result) : ∀ param ∈ parameters, SectionFits param.1 := by
  induction turns generalizing number state with
  | zero => cases decoded
  | succ turns ih =>
      rw [rfc2231DecodeSections] at decoded
      split at decoded
      · cases decoded
      · next missing => exact rfc2231FindSection_fits missing
      · exact ih decoded

theorem rfc2231DecodeForBase_fits {result : Option (List UInt8)} (decoded : rfc2231DecodeForBase charconv parameters base = some result) :
    ∀ param ∈ parameters, SectionFits param.1 := by
  rw [rfc2231DecodeForBase, rfc2231DecodeContinuation] at decoded
  rcases sections : rfc2231DecodeSections parameters base (parameters.length + 1) 0 { decoded := [], charset := none, found := false } with _ | state
  · rw [sections] at decoded
    cases decoded
  · exact rfc2231DecodeSections_fits sections

theorem rfc2231NormalizeLoop_fits {turns cur : Nat} {seen : List (List UInt8)} {out : List MailmimeParameter}
    (ends : rfc2231NormalizeLoop charconv turns parameters seen cur = some out) : ∀ param ∈ parameters.drop cur, SectionFits param.1 := by
  induction turns generalizing parameters seen cur with
  | zero => cases ends
  | succ turns ih =>
      rw [rfc2231NormalizeLoop] at ends
      split at ends
      · next behind =>
          rw [List.drop_eq_nil_iff.mpr (List.getElem?_eq_none_iff.mp behind)]
          exact fun _ member => absurd member List.not_mem_nil
      next param here =>
      have inside := (List.getElem?_eq_some_iff.mp here).1
      have split : parameters.drop cur = param :: parameters.drop (cur + 1) := by
        rw [List.drop_eq_getElem_cons inside, (List.getElem?_eq_some_iff.mp here).2]
      split at ends
      · cases ends
      next info read =>
      have paramFits : SectionFits param.1 := (rfc2231NameParse_fits _).mp ⟨info, read⟩
      have goesOn : (∀ other ∈ parameters.drop (cur + 1), SectionFits other.1) → ∀ other ∈ parameters.drop cur, SectionFits other.1 := by
        intro later other member
        rw [split] at member
        rcases List.mem_cons.mp member with rfl | isLater
        · exact paramFits
        · exact later other isLater
      split_ifs at ends
      · exact goesOn (ih ends)
      split at ends
      · cases ends
      · exact goesOn (ih ends)
      · next decoded => exact fun other member => rfc2231DecodeForBase_fits decoded other (List.mem_of_mem_drop member)

theorem rfc2231NormalizeLoop_mono {turns more cur : Nat} {seen : List (List UInt8)} {out : List MailmimeParameter}
    (ends : rfc2231NormalizeLoop charconv turns parameters seen cur = some out) :
    rfc2231NormalizeLoop charconv (turns + more) parameters seen cur = some out := by
  induction turns generalizing parameters seen cur with
  | zero => cases ends
  | succ turns ih =>
      rw [Nat.add_right_comm]
      rw [rfc2231NormalizeLoop] at ends ⊢
      cases here : parameters[cur]? with
      | none =>
          rw [here] at ends
          exact ends
      | some param =>
          rw [here] at ends
          dsimp only at ends ⊢
          cases read : rfc2231NameParse param.1 with
          | none =>
              rw [read] at ends
              cases ends
          | some info =>
              rw [read] at ends
              dsimp only at ends ⊢
              by_cases skipped : ¬ info.valid ∨ rfc2231BaseWasSeen seen info.base
              · rw [if_pos skipped] at ends ⊢
                exact ih ends
              · rw [if_neg skipped] at ends ⊢
                split at ends
                · cases ends
                · exact ih ends
                split at ends
                · cases ends
                · exact ih ends

theorem mailmimeRfc2231NormalizeParameters_unique {turns turns' : Nat} {out out' : List MailmimeParameter}
    (ends : mailmimeRfc2231NormalizeParameters charconv turns parameters = some out)
    (ends' : mailmimeRfc2231NormalizeParameters charconv turns' parameters = some out') : out = out' := by
  have later := @rfc2231NormalizeLoop_mono charconv parameters turns turns' 0 [] out ends
  have later' := @rfc2231NormalizeLoop_mono charconv parameters turns' turns 0 [] out' ends'
  rw [Nat.add_comm, later] at later'
  exact Option.some.inj later'

end Overflow

section Exact

variable {charconv : List UInt8 → List UInt8 → Option (List UInt8)} {parameters : List MailmimeParameter} {base : List UInt8}

theorem isSection_congr {other : List UInt8} (same : sameCaseless base other = true) : IsSection base = IsSection other := by
  funext number encoded name
  rw [IsSection, IsSection, sameCaseless_iff.mp same]

theorem isSingle_congr {other : List UInt8} (same : sameCaseless base other = true) : IsSingle base = IsSingle other := by
  funext name
  rw [IsSingle, IsSingle, sameCaseless_iff.mp same]

theorem DecodedValue.congr {other value : List UInt8} (decoded : DecodedValue charconv parameters base value) (same : sameCaseless base other = true) :
    DecodedValue charconv parameters other value := by
  cases decoded with
  | sections nonempty all =>
      refine .sections nonempty { piece := fun number piece isPiece => ?_, stops := ?_ }
      · rw [← isSection_congr same]
        exact all.piece number piece isPiece
      · rw [← isSection_congr same]
        exact all.stops
  | single missing first =>
      rw [isSection_congr same] at missing
      rw [isSingle_congr same] at first
      exact .single missing first

theorem Decodable.congr {other : List UInt8} (decodable : Decodable parameters base) (isBase : IsBase other) (same : sameCaseless base other = true) :
    Decodable parameters other := by
  obtain ⟨-, param, member, found⟩ := decodable
  refine ⟨isBase, param, member, ?_⟩
  rwa [isSingle_congr same, isSection_congr same] at found

theorem Decodable.extended (decodable : Decodable parameters base) : ∃ param ∈ parameters, IsExtended base param := by
  obtain ⟨-, param, member, isSingle | ⟨encoded, isSection⟩⟩ := decodable
  · exact ⟨param, member, .inl isSingle⟩
  · exact ⟨param, member, .inr ⟨0, encoded, isSection⟩⟩

variable (fits : ∀ param ∈ parameters, SectionFits param.1)

include fits

theorem decodable_iff (isBase : IsBase base) :
    Decodable parameters base ↔ ∃ value, rfc2231DecodeForBase charconv parameters base = some (some value) := by
  constructor
  · intro decodable
    obtain ⟨value, decoded, -⟩ := rfc2231DecodeForBase_value charconv isBase fits decodable
    exact ⟨value, decoded⟩
  · rintro ⟨value, decoded⟩
    by_contra notDecodable
    rw [rfc2231DecodeForBase_none charconv isBase fits notDecodable] at decoded
    cases decoded

theorem replacement_value {param made : MailmimeParameter} (found : replacement charconv parameters param = some made) :
    Decodable parameters made.1 ∧ IsExtended made.1 param ∧ DecodedValue charconv parameters made.1 made.2 := by
  obtain ⟨info, value, read, isValid, decoded, rfl⟩ := replacement_some found
  have isBase := rfc2231NameParse_valid read isValid
  have decodable : Decodable parameters info.base := (decodable_iff fits isBase).mpr ⟨value, decoded⟩
  obtain ⟨value', decoded', isValue⟩ := rfc2231DecodeForBase_value charconv isBase fits decodable
  rw [decoded] at decoded'
  cases decoded'
  exact ⟨decodable, (isExtended_iff isBase read).mpr ⟨isValid, sameCaseless_iff.mpr rfl⟩, isValue⟩

theorem replacement_isSome {param : MailmimeParameter} (member : param ∈ parameters) :
    isReplacer charconv parameters param = true ↔ ∃ base, Decodable parameters base ∧ IsExtended base param := by
  rw [isReplacer, Option.isSome_iff_exists]
  constructor
  · rintro ⟨made, found⟩
    obtain ⟨decodable, extended, -⟩ := replacement_value fits found
    exact ⟨made.1, decodable, extended⟩
  · rintro ⟨base, decodable, extended⟩
    obtain ⟨info, read⟩ := (rfc2231NameParse_fits _).mpr (fits param member)
    obtain ⟨isValid, same⟩ := (isExtended_iff decodable.1 read).mp extended
    have isBase := rfc2231NameParse_valid read isValid
    have decodable' : Decodable parameters info.base := decodable.congr isBase (sameCaseless_iff.mpr (sameCaseless_iff.mp same).symm)
    obtain ⟨value, decoded⟩ := (@decodable_iff charconv parameters info.base fits isBase).mp decodable'
    refine ⟨(info.base, value), ?_⟩
    rw [replacement, read]
    simp only [isValid, if_true, decoded]

theorem hidden_standsAlone {place : Nat} :
    Hidden baseOf (isReplacer charconv parameters) parameters place ↔ StandsAlone parameters place := by
  induction place using Nat.strong_induction_on with
  | _ place ih =>
      rw [Hidden, StandsAlone]
      refine and_congr_right fun _ => forall_congr' fun earlier => forall_congr' fun before => ?_
      refine exists_congr fun other => exists_congr fun otherBefore => and_congr ?_ (not_congr (ih other otherBefore))
      constructor
      · rintro ⟨param, past, isParam, isPast, isLive, same⟩
        obtain ⟨base, decodable, extended⟩ := (replacement_isSome fits (List.mem_of_getElem? isParam)).mp isLive
        refine ⟨base, param, past, isParam, isPast, decodable, extended, ?_⟩
        rw [belongs_iff decodable.1 (fits past (List.mem_of_getElem? isPast)), ← same,
          ← belongs_iff decodable.1 (fits param (List.mem_of_getElem? isParam))]
        exact .inr extended
      · rintro ⟨base, param, past, isParam, isPast, decodable, extended, belongs⟩
        refine ⟨param, past, isParam, isPast, (replacement_isSome fits (List.mem_of_getElem? isParam)).mpr ⟨base, decodable, extended⟩, ?_⟩
        rw [(belongs_iff decodable.1 (fits past (List.mem_of_getElem? isPast))).mp belongs]
        exact (belongs_iff decodable.1 (fits param (List.mem_of_getElem? isParam))).mp (.inr extended)

theorem gone_iff (isBase : IsBase base) :
    Gone baseOf (isReplacer charconv parameters) parameters parameters.length (base.map tolower) ↔
      Decodable parameters base ∧ ∃ place param, parameters[place]? = some param ∧ IsExtended base param ∧ ¬ StandsAlone parameters place := by
  constructor
  · rintro ⟨place, -, param, isParam, isLive, same, shown⟩
    have member := List.mem_of_getElem? isParam
    obtain ⟨other, decodable, extended⟩ := (replacement_isSome fits member).mp isLive
    have group := (belongs_iff decodable.1 (fits param member)).mp (.inr extended)
    rw [same] at group
    have sameBase : sameCaseless other base = true := sameCaseless_iff.mpr group.symm
    rw [hidden_standsAlone fits] at shown
    refine ⟨decodable.congr isBase sameBase, place, param, isParam, ?_, shown⟩
    rwa [IsExtended, isSingle_congr sameBase, isSection_congr sameBase] at extended
  · rintro ⟨decodable, place, param, isParam, extended, shown⟩
    have member := List.mem_of_getElem? isParam
    rw [← @hidden_standsAlone charconv parameters fits] at shown
    exact ⟨place, (List.getElem?_eq_some_iff.mp isParam).1, param, isParam, (replacement_isSome fits member).mpr ⟨base, decodable, extended⟩,
      (belongs_iff isBase (fits param member)).mp (.inr extended), shown⟩

theorem gone_belongs {param : MailmimeParameter} (member : param ∈ parameters) :
    Gone baseOf (isReplacer charconv parameters) parameters parameters.length (baseOf param) ↔
      ∃ base, Decodable parameters base ∧ Belongs base param ∧
        ∃ place param, parameters[place]? = some param ∧ IsExtended base param ∧ ¬ StandsAlone parameters place := by
  constructor
  · intro gone
    obtain ⟨place, -, other, isOther, isLive, same, -⟩ := id gone
    obtain ⟨base, decodable, extended⟩ := (replacement_isSome fits (List.mem_of_getElem? isOther)).mp isLive
    have group := (belongs_iff decodable.1 (fits other (List.mem_of_getElem? isOther))).mp (.inr extended)
    rw [same] at group
    rw [group] at gone
    exact ⟨base, decodable, (belongs_iff decodable.1 (fits param member)).mpr group, ((gone_iff fits decodable.1).mp gone).2⟩
  · rintro ⟨base, decodable, belongs, seen⟩
    rw [(belongs_iff decodable.1 (fits param member)).mp belongs]
    exact (gone_iff fits decodable.1).mpr ⟨decodable, seen⟩

theorem mailmimeRfc2231NormalizeParameters_run : ∃ turns pivots, mailmimeRfc2231NormalizeParameters charconv turns parameters =
      some (keptOf baseOf (isReplacer charconv parameters) parameters parameters.length parameters ++
        pivots.map (madeFor charconv parameters)) ∧
    Replaced baseOf (isReplacer charconv parameters) parameters parameters.length pivots := by
  have running : Running charconv parameters parameters [] :=
    { fits := fits, same := fun _ _ => rfl, unseen := fun _ _ _ _ _ => rfl }
  have plain : ∀ param ∈ parameters, isReplacer charconv parameters param = true →
      baseOf (madeFor charconv parameters param) = baseOf param ∧
        isReplacer charconv parameters (madeFor charconv parameters param) = false := by
    intro param member isLive
    obtain ⟨⟨base, value⟩, found⟩ := Option.isSome_iff_exists.mp isLive
    obtain ⟨decodable, extended, -⟩ := replacement_value fits found
    rw [(isReplacer_some found).2, (starless_plain decodable.1).2.2, (belongs_iff decodable.1 (fits param member)).mp (.inr extended)]
    exact ⟨rfl, by rw [isReplacer, replacement_plain decodable.1]; rfl⟩
  obtain ⟨turns, pivots, ends, replaced⟩ := collapse_run (fun param member isLive => (plain param member isLive).1)
    (fun param member isLive => (plain param member isLive).2)
  refine ⟨turns, pivots, ?_, replaced⟩
  rw [mailmimeRfc2231NormalizeParameters, rfc2231NormalizeLoop_eq charconv parameters turns 0 running]
  exact ends

section Outcome

variable {kept pivots : List MailmimeParameter}
  (replaced : Replaced baseOf (isReplacer charconv parameters) parameters parameters.length pivots)

include replaced

theorem madeFor_value {pivot : MailmimeParameter} (isPivot : pivot ∈ pivots) :
    ∃ base value, madeFor charconv parameters pivot = (base, value) ∧ Decodable parameters base ∧ DecodedValue charconv parameters base value ∧
      baseOf pivot = base.map tolower := by
  obtain ⟨inList, isLive⟩ := replaced.live pivot isPivot
  obtain ⟨⟨base, value⟩, found⟩ := Option.isSome_iff_exists.mp isLive
  obtain ⟨decodable, extended, isValue⟩ := replacement_value fits found
  exact ⟨base, value, (isReplacer_some found).2, decodable, isValue, (belongs_iff decodable.1 (fits pivot inList)).mp (.inr extended)⟩

theorem madeFor_belongs {pivot : MailmimeParameter} (isPivot : pivot ∈ pivots) (isBase : IsBase base) :
    Belongs base (madeFor charconv parameters pivot) ↔ baseOf pivot = base.map tolower := by
  obtain ⟨other, value, made, decodable, -, ofOther⟩ := madeFor_value fits replaced isPivot
  obtain ⟨-, plainFits, plainBase⟩ := @starless_plain other value decodable.1
  rw [made, belongs_iff isBase plainFits, plainBase, ofOther]

open Classical in
theorem madeFor_filter (isBase : IsBase base)
    (gone : Gone baseOf (isReplacer charconv parameters) parameters parameters.length (base.map tolower)) :
    ∃ param, (pivots.map (madeFor charconv parameters)).filter (fun other => Belongs base other) = [param] ∧
      sameCaseless param.1 base = true ∧ DecodedValue charconv parameters base param.2 := by
  obtain ⟨pivot, isPivot, ofBase⟩ := List.mem_map.mp ((replaced.gone _).mpr gone)
  obtain ⟨other, value, made, -, isValue, ofOther⟩ := madeFor_value fits replaced isPivot
  have sameBase : sameCaseless other base = true := sameCaseless_iff.mpr (ofOther.symm.trans ofBase)
  refine ⟨(other, value), ?_, sameBase, isValue.congr sameBase⟩
  have onlyPivot : pivots.filter (fun param => Belongs base (madeFor charconv parameters param)) = [pivot] := by
    rw [List.filter_congr fun param member => by rw [madeFor_belongs fits replaced member isBase]]
    obtain ⟨before, after, rfl⟩ := List.append_of_mem isPivot
    have distinct := replaced.distinct
    rw [List.map_append, List.map_cons, List.nodup_middle, List.nodup_cons, ← List.map_append, ofBase] at distinct
    have others : ∀ param ∈ before ++ after, ¬ baseOf param = base.map tolower := by
      intro param member same
      rw [← same] at distinct
      exact distinct.1 (List.mem_map_of_mem member)
    rw [List.filter_append, List.filter_cons_of_pos (by simp [ofBase]),
      List.filter_eq_nil_iff.mpr fun param member => by simpa using others param (List.mem_append_left _ member),
      List.filter_eq_nil_iff.mpr fun param member => by simpa using others param (List.mem_append_right _ member), List.nil_append]
  rw [List.filter_map]
  change (pivots.filter fun param => Belongs base (madeFor charconv parameters param)).map (madeFor charconv parameters) = _
  rw [onlyPivot, List.map_singleton, made]

end Outcome

end Exact

theorem mailmimeRfc2231NormalizeParameters_settled (charconv : List UInt8 → List UInt8 → Option (List UInt8)) {parameters : List MailmimeParameter}
    (fits : ∀ param ∈ parameters, SectionFits param.1) (settled : ∀ base, ¬ Decodable parameters base) :
    ∃ turns, mailmimeRfc2231NormalizeParameters charconv turns parameters = some parameters := by
  have running : Running charconv parameters parameters [] :=
    { fits := fits, same := fun _ _ => rfl, unseen := fun _ _ _ _ _ => rfl }
  have dead : ∀ param ∈ parameters.drop 0, isReplacer charconv parameters param = false := by
    intro param member
    rw [← Bool.not_eq_true, replacement_isSome fits (List.mem_of_mem_drop member)]
    exact fun ⟨base, decodable, _⟩ => settled base decodable
  obtain ⟨turns, ends⟩ := collapse_end baseOf (madeFor charconv parameters) dead
  refine ⟨turns, ?_⟩
  rw [mailmimeRfc2231NormalizeParameters, rfc2231NormalizeLoop_eq charconv parameters turns 0 running]
  exact ends

section Main

variable (charconv : List UInt8 → List UInt8 → Option (List UInt8)) (parameters : List MailmimeParameter)

open Classical in
/-- What the loop ends with is normalized, when it looked at every base. -/
theorem normalized_of_seen (fits : ∀ param ∈ parameters, SectionFits param.1)
    (seen : ∀ base, Decodable parameters base → ∃ place param, parameters[place]? = some param ∧ IsExtended base param ∧ ¬ StandsAlone parameters place) :
    ∃ turns out, mailmimeRfc2231NormalizeParameters charconv turns parameters = some out ∧ Normalized charconv parameters out ∧
      ∃ turns', mailmimeRfc2231NormalizeParameters charconv turns' out = some out := by
  obtain ⟨turns, pivots, ends, replaced⟩ := @mailmimeRfc2231NormalizeParameters_run charconv parameters fits
  have isGone : ∀ param ∈ parameters, Gone baseOf (isReplacer charconv parameters) parameters parameters.length (baseOf param) ↔
      IsReplaced parameters param := by
    intro param member
    rw [gone_belongs fits member, IsReplaced]
    exact ⟨fun ⟨base, decodable, belongs, _⟩ => ⟨base, decodable, belongs⟩, fun ⟨base, decodable, belongs⟩ => ⟨base, decodable, belongs, seen base decodable⟩⟩
  have keptEq : keptOf baseOf (isReplacer charconv parameters) parameters parameters.length parameters =
      parameters.filter fun param => ¬ IsReplaced parameters param := by
    refine List.filter_congr fun param member => ?_
    rw [decide_eq_decide, isGone param member]
  rw [keptEq] at ends
  have madeReplaced : ∀ param ∈ pivots.map (madeFor charconv parameters), IsReplaced parameters param ∧ ascii '*' ∉ param.1 ∧ SectionFits param.1 := by
    intro param member
    obtain ⟨pivot, isPivot, rfl⟩ := List.mem_map.mp member
    obtain ⟨base, value, made, decodable, -, -⟩ := madeFor_value fits replaced isPivot
    rw [made]
    exact ⟨⟨base, decodable, .inl (sameCaseless_iff.mpr rfl)⟩, decodable.1.2, (@starless_plain base value decodable.1).2.1⟩
  refine ⟨turns, _, ends, { replaced := fun base decodable => ?_, kept := ?_ }, ?_⟩
  · have gone := (@gone_iff charconv parameters base fits decodable.1).mpr ⟨decodable, seen base decodable⟩
    obtain ⟨param, only, sameBase, isValue⟩ := madeFor_filter fits replaced decodable.1 gone
    have nothing : (parameters.filter fun param => ¬ IsReplaced parameters param).filter (fun other => Belongs base other) = [] := by
      rw [List.filter_eq_nil_iff]
      intro other member belongs
      have notReplaced := of_decide_eq_true (List.mem_filter.mp member).2
      exact notReplaced ⟨base, decodable, of_decide_eq_true belongs⟩
    refine ⟨param, ?_, sameBase, isValue⟩
    rw [List.filter_append, nothing, List.nil_append, only]
  · have nothing : (pivots.map (madeFor charconv parameters)).filter (fun param => ¬ IsReplaced parameters param) = [] := by
      rw [List.filter_eq_nil_iff]
      intro param member
      rw [decide_eq_true_eq, not_not]
      exact (madeReplaced param member).1
    rw [List.filter_append, nothing, List.append_nil, List.filter_filter]
    refine List.filter_congr fun param _ => ?_
    rw [Bool.and_self]
  · refine mailmimeRfc2231NormalizeParameters_settled charconv (fun param member => ?_) fun base decodable => ?_
    · rcases List.mem_append.mp member with old | new
      · exact fits param (List.mem_filter.mp old).1
      · exact (madeReplaced param new).2.2
    · obtain ⟨isBase, param, member, found⟩ := decodable
      have extended : IsExtended base param := found.imp_right fun ⟨encoded, isSection⟩ => ⟨0, encoded, isSection⟩
      rcases List.mem_append.mp member with old | new
      · obtain ⟨wasThere, notReplaced⟩ := List.mem_filter.mp old
        exact of_decide_eq_true notReplaced ⟨base, ⟨isBase, param, wasThere, found⟩, .inr extended⟩
      · exact (madeReplaced param new).2.1 extended.star_mem

end Main

end Etpan.Mime
