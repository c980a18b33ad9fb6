import Etpan.Thread.SubjectSteps

namespace Etpan.Thread

open Etpan.Data Relation Computability SubjectGrammar

/-! There is one base subject, and what becomes of it when spaces are squeezed or letters are capitals. -/

def Trailed (text : List UInt8) : Prop := ∃ rest trailer, (trailer ∈ terminal "(fwd)" ∨ trailer ∈ wsp) ∧ text = rest ++ trailer

def Wrapped (text : List UInt8) : Prop := ∃ header rest trailer, header ∈ subjFwdHdr ∧ trailer ∈ subjFwdTrl ∧ text = header ++ rest ++ trailer

theorem stuck_trailer {text : List UInt8} {reply : Bool} : Stuck TrailerStep (text, reply) ↔ ¬ Trailed text := by
  constructor
  · rintro stuck ⟨rest, trailer, isFwd | isSpace, rfl⟩
    · exact stuck _ (.fwd isFwd)
    · exact stuck _ (.wsp isSpace)
  · intro free next taken
    cases taken with
    | fwd isFwd => exact free ⟨_, _, .inl isFwd, rfl⟩
    | wsp isSpace => exact free ⟨_, _, .inr isSpace, rfl⟩

theorem stuck_wrapper {text : List UInt8} {reply : Bool} : Stuck WrapperStep (text, reply) ↔ ¬ Wrapped text := by
  constructor
  · rintro stuck ⟨header, rest, trailer, isHeader, isTrailer, rfl⟩
    exact stuck _ (.fwd isHeader isTrailer)
  · intro free next taken
    cases taken with
    | fwd isHeader isTrailer => exact free ⟨_, _, _, isHeader, isTrailer, rfl⟩

theorem terminal_length {text : String} {octets : List UInt8} (member : octets ∈ terminal text) : octets.length = (asciiText text).length := by
  have same := congrArg List.length (show octets.map tolower = _ from member)
  rwa [List.length_map, List.length_map] at same

theorem fwd_concat {trailer : List UInt8} (isFwd : trailer ∈ terminal "(fwd)") : ∃ before, trailer = before ++ [ascii ')'] := by
  obtain ⟨a, b, c, d, e, rfl⟩ : ∃ a b c d e, trailer = [a, b, c, d, e] := by
    match trailer, terminal_length isFwd with
    | [a, b, c, d, e], _ => exact ⟨a, b, c, d, e, rfl⟩
  have lowered : tolower e = tolower (ascii ')') := by
    have same : [a, b, c, d, e].map tolower = (asciiText "(fwd)").map tolower := isFwd
    exact congrArg (fun list : List UInt8 => list.getLast?.getD 0) same
  have isClosing : ∀ octet : UInt8, tolower octet = tolower (ascii ')') → octet = ascii ')' := forall_octet (by decide +kernel)
  exact ⟨[a, b, c, d], by rw [isClosing e lowered]; rfl⟩

theorem trailerStep_cases {state next : List UInt8 × Bool} (taken : TrailerStep state next) :
    ∃ trailer, state.1 = next.1 ++ trailer ∧
      (trailer ∈ terminal "(fwd)" ∧ next.2 = true ∨ trailer ∈ wsp ∧ next.2 = state.2) := by
  cases taken with
  | fwd isFwd => exact ⟨_, rfl, .inl ⟨isFwd, rfl⟩⟩
  | wsp isSpace => exact ⟨_, rfl, .inr ⟨isSpace, rfl⟩⟩

theorem trailerStep_unique : Relator.RightUnique TrailerStep := by
  intro state next other taken taken'
  -- the two kinds of trailer end differently
  have apart : ∀ {rest rest' trailer trailer' : List UInt8}, trailer ∈ terminal "(fwd)" → trailer' ∈ wsp →
      rest ++ trailer ≠ rest' ++ trailer' := by
    intro rest rest' trailer trailer' isFwd isSpace same
    obtain ⟨before, rfl⟩ := fwd_concat isFwd
    rw [mem_wsp.mp isSpace, ← List.append_assoc] at same
    have last := (List.append_inj' same rfl).2
    cases last
  obtain ⟨trailer, split, kind⟩ := trailerStep_cases taken
  obtain ⟨trailer', split', kind'⟩ := trailerStep_cases taken'
  have same := split.symm.trans split'
  rcases kind with ⟨isFwd, reply⟩ | ⟨isSpace, reply⟩
  · rcases kind' with ⟨isFwd', reply'⟩ | ⟨isSpace', _⟩
    · exact Prod.ext (List.append_inj' same ((terminal_length isFwd).trans (terminal_length isFwd').symm)).1 (reply.trans reply'.symm)
    · exact absurd same (apart isFwd isSpace')
  · rcases kind' with ⟨isFwd', _⟩ | ⟨isSpace', reply'⟩
    · exact absurd same.symm (apart isFwd' isSpace)
    · rw [mem_wsp.mp isSpace, mem_wsp.mp isSpace'] at same
      exact Prod.ext (List.append_inj' same rfl).1 (reply.trans reply'.symm)

theorem wrapperStep_cases {state next : List UInt8 × Bool} (taken : WrapperStep state next) :
    ∃ header trailer, header ∈ subjFwdHdr ∧ trailer ∈ subjFwdTrl ∧ state.1 = header ++ next.1 ++ trailer ∧ next.2 = true := by
  cases taken with
  | fwd isHeader isTrailer => exact ⟨_, _, isHeader, isTrailer, rfl, rfl⟩

theorem wrapperStep_unique : Relator.RightUnique WrapperStep := by
  intro state next other taken taken'
  obtain ⟨header, trailer, isHeader, isTrailer, split, reply⟩ := wrapperStep_cases taken
  obtain ⟨header', trailer', isHeader', isTrailer', split', reply'⟩ := wrapperStep_cases taken'
  have outer := (List.append_inj' (split.symm.trans split') ((terminal_length isTrailer).trans (terminal_length isTrailer').symm)).1
  exact Prod.ext (List.append_inj outer ((terminal_length isHeader).trans (terminal_length isHeader').symm)).2 (reply.trans reply'.symm)

theorem baseSubject_unique {start base other : List UInt8 × Bool} (found : BaseSubject start base) (found' : BaseSubject start other) :
    base = other := by
  induction found with
  | base trimming stripping unwrapped =>
      cases found' with
      | base trimming' stripping' _ =>
          cases trimming.unique trailerStep_unique trimming'
          exact ends_prefix_unique stripping stripping'
      | wrapped trimming' stripping' unwrapping _ =>
          cases trimming.unique trailerStep_unique trimming'
          cases ends_prefix_unique stripping stripping'
          exact absurd unwrapping (unwrapped _)
  | wrapped trimming stripping unwrapping _ ih =>
      cases found' with
      | base trimming' stripping' unwrapped =>
          cases trimming.unique trailerStep_unique trimming'
          cases ends_prefix_unique stripping stripping'
          exact absurd unwrapping (unwrapped _)
      | wrapped trimming' stripping' unwrapping' rest =>
          cases trimming.unique trailerStep_unique trimming'
          cases ends_prefix_unique stripping stripping'
          cases wrapperStep_unique unwrapping unwrapping'
          exact ih rest

/-- A change of texts that the steps do not see. -/
structure Transparent (change : List UInt8 → List UInt8) : Prop where
  trailer : ∀ state next, TrailerStep state next → ReflTransGen TrailerStep (change state.1, state.2) (change next.1, next.2)
  trailed : ∀ text, Trailed (change text) → Trailed text
  strip : ∀ state next, StripStep state next → ReflTransGen StripStep (change state.1, state.2) (change next.1, next.2)
  stripped : ∀ text, stripNext text = none → stripNext (change text) = none
  wrapper : ∀ state next, WrapperStep state next → WrapperStep (change state.1, state.2) (change next.1, next.2)
  wrapped : ∀ text, Wrapped (change text) → Wrapped text

section Transparent

variable {change : List UInt8 → List UInt8} (transparent : Transparent change)

include transparent

theorem Transparent.trimming {state last : List UInt8 × Bool} (ends : Ends TrailerStep state last) :
    Ends TrailerStep (change state.1, state.2) (change last.1, last.2) := by
  refine ends.map (fun state => (change state.1, state.2)) transparent.trailer fun state stuck => ?_
  rw [stuck_trailer]
  exact fun trailed => stuck_trailer.mp stuck (transparent.trailed state.1 trailed)

theorem Transparent.stripping {state last : List UInt8 × Bool} (ends : Ends PrefixStep state last) :
    Ends PrefixStep (change state.1, state.2) (change last.1, last.2) := by
  rw [ends_prefixStep] at ends ⊢
  refine ends.map (fun state => (change state.1, state.2)) transparent.strip fun state stuck => ?_
  rw [stuck_strip]
  exact transparent.stripped state.1 (stuck_strip.mp stuck)

theorem Transparent.base {start base : List UInt8 × Bool} (found : BaseSubject start base) :
    BaseSubject (change start.1, start.2) (change base.1, base.2) := by
  induction found with
  | base trimming stripping unwrapped =>
      refine .base (transparent.trimming trimming) (transparent.stripping stripping) ?_
      rw [stuck_wrapper]
      exact fun wrapped => stuck_wrapper.mp unwrapped (transparent.wrapped _ wrapped)
  | wrapped trimming stripping unwrapping _ ih =>
      exact .wrapped (transparent.trimming trimming) (transparent.stripping stripping) (transparent.wrapper _ _ unwrapping) ih

end Transparent

section Squeeze

variable {octet : UInt8}

theorem squeeze_cons (differs : octet ≠ space) (rest : List UInt8) : squeeze (octet :: rest) = octet :: squeeze rest := by
  rw [squeeze, if_neg fun both => differs both.1]

theorem squeeze_head (text : List UInt8) : (squeeze text).head? = text.head? := by
  induction text with
  | nil => rfl
  | cons octet rest ih =>
      rw [squeeze]
      split_ifs with both
      · rw [ih, both.2, both.1]
        rfl
      · rfl

theorem squeeze_eq_nil {text : List UInt8} : squeeze text = [] ↔ text = [] := by
  rw [← List.head?_eq_none_iff, squeeze_head, List.head?_eq_none_iff]

theorem squeeze_append (differs : octet ≠ space) (before rest : List UInt8) :
    squeeze (before ++ octet :: rest) = squeeze before ++ octet :: squeeze rest := by
  induction before with
  | nil => exact squeeze_cons differs rest
  | cons first before ih =>
      have sameHead : (before ++ octet :: rest).head? = some space ↔ before.head? = some space := by
        cases before with
        | nil => simp [differs]
        | cons => rfl
      rw [List.cons_append, squeeze, squeeze, ih]
      simp only [sameHead]
      split_ifs
      · rfl
      · rfl

theorem squeeze_split (differs : octet ≠ space) {text before rest : List UInt8} (same : squeeze text = before ++ octet :: rest) :
    ∃ before' rest', text = before' ++ octet :: rest' ∧ squeeze before' = before ∧ squeeze rest' = rest := by
  induction text generalizing before with
  | nil => exact absurd same.symm (by simp [squeeze])
  | cons first text ih =>
      rw [squeeze] at same
      split_ifs at same with both
      · obtain ⟨before', rest', rfl, squeezed, restSqueezed⟩ := ih same
        refine ⟨first :: before', rest', rfl, ?_, restSqueezed⟩
        have next : before'.head? = some space := by
          cases before' with
          | nil => exact absurd (Option.some.inj both.2) differs
          | cons => exact both.2
        rw [squeeze, if_pos ⟨both.1, next⟩, squeezed]
      · cases before with
        | nil =>
            obtain ⟨rfl, rfl⟩ := List.cons.inj same
            exact ⟨[], text, rfl, rfl, rfl⟩
        | cons other before =>
            obtain ⟨rfl, inner⟩ := List.cons.inj same
            obtain ⟨before', rest', rfl, squeezed, restSqueezed⟩ := ih inner
            refine ⟨first :: before', rest', rfl, ?_, restSqueezed⟩
            rw [squeeze, if_neg, squeezed]
            intro alike
            refine both ⟨alike.1, ?_⟩
            cases before' with
            | nil => cases alike.2
            | cons => exact alike.2

theorem squeeze_self {text : List UInt8} (free : ∀ octet ∈ squeeze text, octet ≠ space) : squeeze text = text := by
  induction text with
  | nil => rfl
  | cons first text ih =>
      have notSpace : first ≠ space := by
        refine free first (List.mem_of_mem_head? ?_)
        rw [squeeze_head]
        rfl
      rw [squeeze_cons notSpace] at free ⊢
      rw [ih fun octet member => free octet (List.mem_cons_of_mem first member)]

theorem squeeze_front {head : List UInt8} (free : ∀ octet ∈ head, octet ≠ space) (rest : List UInt8) :
    squeeze (head ++ rest) = head ++ squeeze rest := by
  induction head with
  | nil => rfl
  | cons first head ih =>
      rw [List.cons_append, squeeze_cons (free first (by simp)), ih fun octet member => free octet (List.mem_cons_of_mem first member)]
      rfl

theorem afterBlob_squeeze (text : List UInt8) : afterBlob (squeeze text) = (afterBlob text).map squeeze := by
  induction text with
  | nil => rfl
  | cons first text ih =>
      by_cases isSpace : first = space
      · subst isSpace
        have skip : ∀ rest, afterBlob (space :: rest) = afterBlob rest := fun rest => by
          rw [afterBlob, if_neg (by decide), if_neg (by decide)]
        rw [squeeze, skip]
        split_ifs
        · exact ih
        · rw [skip, ih]
      · rw [squeeze_cons isSpace, afterBlob, afterBlob]
        split_ifs
        · rfl
        · rfl
        · exact ih

theorem dropSpaces_squeeze (text : List UInt8) : dropSpaces (squeeze text) = squeeze (dropSpaces text) := by
  induction text with
  | nil => rfl
  | cons first text ih =>
      by_cases isSpace : first = space
      · have dropped : ∀ rest, dropSpaces (first :: rest) = dropSpaces rest := fun rest => by
          rw [dropSpaces, List.dropWhile_cons_of_pos (by simpa using isSpace)]
          rfl
        rw [squeeze, dropped]
        split_ifs
        · exact ih
        · rw [dropped, ih]
      · rw [squeeze_cons isSpace, dropSpaces_self isSpace, dropSpaces_self isSpace, squeeze_cons isSpace]

theorem pastBlob_squeeze (text : List UInt8) : pastBlob (squeeze text) = squeeze (pastBlob text) := by
  cases text with
  | nil => rfl
  | cons first text =>
      by_cases opening : first = ascii '['
      · subst opening
        rw [squeeze_cons (by decide), pastBlob, pastBlob, if_pos rfl, if_pos rfl, afterBlob_squeeze]
        cases afterBlob text with
        | none => exact (squeeze_cons (by decide) text).symm
        | some rest => exact dropSpaces_squeeze rest
      · have same : pastBlob (first :: text) = first :: text := by rw [pastBlob, if_neg opening]
        rw [same]
        cases squeezed : squeeze (first :: text) with
        | nil => rfl
        | cons other rest =>
            have isFirst := squeeze_head (first :: text)
            rw [squeezed] at isFirst
            rw [pastBlob, if_neg]
            intro isOpening
            rw [isOpening] at isFirst
            exact opening (Option.some.inj isFirst).symm

theorem afterColon_squeeze (text : List UInt8) : afterColon (squeeze text) = (afterColon text).map squeeze := by
  cases text with
  | nil => rfl
  | cons first text =>
      by_cases isSpace : first = space
      · have none' : ∀ {rest : List UInt8}, rest.head? = some space → afterColon rest = none := by
          intro rest head
          cases rest with
          | nil => cases head
          | cons other rest =>
              cases head
              rfl
        have head : (first :: text).head? = some space := by rw [isSpace]; rfl
        rw [none' head, none' ((squeeze_head _).trans head)]
        rfl
      · rw [squeeze_cons isSpace, afterColon, afterColon]
        split_ifs
        · rfl
        · rfl

theorem notSpace_of_lowered {head : List UInt8} {literal : List UInt8} (same : head.map tolower = literal) (free : space ∉ literal) :
    ∀ octet ∈ head, octet ≠ space := by
  rintro octet member rfl
  refine free ?_
  rw [← same]
  exact List.mem_map.mpr ⟨space, member, rfl⟩

theorem startsWith_squeeze {literal : List UInt8} (free : space ∉ literal.map tolower) (text : List UInt8) :
    startsWith literal (squeeze text) = startsWith literal text ∧
      (startsWith literal text = true → (squeeze text).drop literal.length = squeeze (text.drop literal.length)) := by
  induction literal generalizing text with
  | nil =>
      refine ⟨?_, fun _ => rfl⟩
      simp [startsWith]
  | cons letter literal ih =>
      have letterFree : tolower letter ≠ space := fun same => free (by rw [List.map_cons, same]; simp)
      have restFree : space ∉ literal.map tolower := fun member => free (by rw [List.map_cons]; exact List.mem_cons_of_mem _ member)
      cases text with
      | nil => exact ⟨rfl, fun _ => rfl⟩
      | cons first text =>
          by_cases isSpace : first = space
          · have none' : ∀ {rest : List UInt8}, rest.head? = some space → startsWith (letter :: literal) rest = false := by
              intro rest head
              cases rest with
              | nil => cases head
              | cons other rest =>
                  cases head
                  rw [startsWith_cons, decide_eq_false fun same => letterFree same.symm, Bool.false_and]
            have head : (first :: text).head? = some space := by rw [isSpace]; rfl
            rw [none' head, none' ((squeeze_head _).trans head)]
            exact ⟨rfl, fun impossible => absurd impossible Bool.false_ne_true⟩
          · rw [squeeze_cons isSpace, startsWith_cons, startsWith_cons, (ih restFree text).1]
            refine ⟨rfl, fun starts => ?_⟩
            rw [List.length_cons, List.drop_succ_cons, List.drop_succ_cons]
            exact (ih restFree text).2 (Bool.and_eq_true_iff.mp starts).2

theorem afterPrefix_squeeze (text : List UInt8) : afterPrefix (squeeze text) = (afterPrefix text).map squeeze := by
  have fwd := @startsWith_squeeze (asciiText "fwd") (by decide) text
  have fw := @startsWith_squeeze (asciiText "fw") (by decide) text
  have re := @startsWith_squeeze (asciiText "re") (by decide) text
  rw [afterPrefix, afterPrefix, fwd.1, fw.1, re.1]
  split_ifs with three two
  · exact congrArg some (fwd.2 three)
  · rcases Bool.or_eq_true_iff.mp two with isFw | isRe
    · exact congrArg some (fw.2 isFw)
    · exact congrArg some (re.2 isRe)
  · rfl

theorem afterRefwd_squeeze (text : List UInt8) : afterRefwd (squeeze text) = (afterRefwd text).map squeeze := by
  rw [afterRefwd, afterRefwd, afterPrefix_squeeze]
  cases afterPrefix text with
  | none => rfl
  | some rest =>
      rw [Option.map_some, Option.bind_some, Option.bind_some, dropSpaces_squeeze, pastBlob_squeeze, afterColon_squeeze]

theorem stripNext_squeeze {text : List UInt8} (single : ¬ (text.head? = some space ∧ text.tail.head? = some space)) :
    stripNext (squeeze text) = (stripNext text).map fun next => (squeeze next.1, next.2) := by
  cases text with
  | nil => rfl
  | cons first text =>
      by_cases isSpace : first = space
      · subst isSpace
        rw [squeeze, if_neg fun both => single ⟨rfl, both.2⟩]
        rfl
      · by_cases opening : first = ascii '['
        · subst opening
          rw [squeeze_cons (by decide), stripNext, stripNext, if_neg (by decide), if_pos rfl, if_neg (by decide), if_pos rfl, afterBlob_squeeze]
          cases afterBlob text with
          | none => rfl
          | some rest =>
              by_cases empty : rest = []
              · rw [empty]
                rfl
              · simp only [Option.map_some, Option.filter_some, ne_eq, squeeze_eq_nil, empty, not_false_eq_true, decide_true, if_true]
        · have other : ∀ rest, stripNext (first :: rest) = (afterRefwd (first :: rest)).map fun rest => (rest, true) := fun rest => by
            rw [stripNext, if_neg isSpace, if_neg opening]
          rw [squeeze_cons isSpace, other, other, ← squeeze_cons isSpace, afterRefwd_squeeze, Option.map_map, Option.map_map]
          rfl

theorem squeeze_free {text : List UInt8} (free : ∀ octet ∈ text, octet ≠ space) : squeeze text = text := by
  have front := squeeze_front free []
  rwa [List.append_nil, show squeeze [] = [] from rfl, List.append_nil] at front

theorem squeeze_concat_space (rest : List UInt8) :
    squeeze (rest ++ [space]) = squeeze rest ++ [space] ∨ squeeze (rest ++ [space]) = squeeze rest := by
  induction rest with
  | nil => exact .inl rfl
  | cons first rest ih =>
      cases rest with
      | nil =>
          by_cases isSpace : first = space
          · rw [isSpace]
            exact .inr rfl
          · rw [List.cons_append, squeeze_cons isSpace, squeeze_cons isSpace]
            exact .inl rfl
      | cons second rest =>
          have pair : ∀ others, squeeze (first :: second :: others) =
              if first = space ∧ second = space then squeeze (second :: others) else first :: squeeze (second :: others) := fun others => by
            rw [squeeze]
            simp only [List.head?_cons, Option.some.injEq]
          rw [List.cons_append, List.cons_append, pair, pair]
          rw [List.cons_append] at ih
          by_cases both : first = space ∧ second = space
          · rw [if_pos both, if_pos both]
            exact ih
          · rw [if_neg both, if_neg both]
            rcases ih with kept | dropped
            · exact .inl (by rw [kept]; rfl)
            · exact .inr (by rw [dropped])

theorem squeeze_last (text : List UInt8) : (squeeze text).getLast? = text.getLast? := by
  induction text with
  | nil => rfl
  | cons first text ih =>
      cases text with
      | nil =>
          rw [squeeze, if_neg (by simp)]
          rfl
      | cons second text =>
          have kept : squeeze (second :: text) ≠ [] := by
            rw [ne_eq, squeeze_eq_nil]
            exact List.cons_ne_nil second text
          rw [squeeze, List.getLast?_cons_cons]
          split_ifs
          · exact ih
          · obtain ⟨other, rest, same⟩ := List.exists_cons_of_ne_nil kept
            rw [same, List.getLast?_cons_cons, ← same, ih]

theorem lowered_free {text : String} {octets : List UInt8} (member : octets ∈ terminal text) (free : space ∉ (asciiText text).map tolower) :
    ∀ octet ∈ octets, octet ≠ space :=
  notSpace_of_lowered (show octets.map tolower = _ from member) free

theorem header_concat {header : List UInt8} (isHeader : header ∈ subjFwdHdr) : ∃ before, header = before ++ [ascii ':'] := by
  obtain ⟨a, b, c, d, e, rfl⟩ : ∃ a b c d e, header = [a, b, c, d, e] := by
    match header, terminal_length isHeader with
    | [a, b, c, d, e], _ => exact ⟨a, b, c, d, e, rfl⟩
  have lowered : tolower e = tolower (ascii ':') := by
    have same : [a, b, c, d, e].map tolower = (asciiText "[fwd:").map tolower := isHeader
    exact congrArg (fun list : List UInt8 => list.getLast?.getD 0) same
  exact ⟨[a, b, c, d], by rw [(tolower_mark (by decide) e).mp lowered]; rfl⟩

theorem squeeze_transparent : Transparent squeeze where
  trailer := by
    intro state next taken
    cases taken with
    | @fwd rest trailer reply isFwd =>
        have free := lowered_free isFwd (by decide)
        cases trailer with
        | nil => cases terminal_length isFwd
        | cons first trailer =>
            simp only
            rw [squeeze_append (free first (by simp)), squeeze_free fun octet member => free octet (List.mem_cons_of_mem first member)]
            exact .single (.fwd isFwd)
    | @wsp rest trailer reply isSpace =>
        simp only
        rw [mem_wsp.mp isSpace]
        rcases squeeze_concat_space rest with kept | dropped
        · rw [kept]
          exact .single (.wsp (mem_wsp.mpr rfl))
        · rw [dropped]
  trailed := by
    rintro text ⟨rest, trailer, isFwd | isSpace, same⟩
    · have free := lowered_free isFwd (by decide)
      cases trailer with
      | nil => cases terminal_length isFwd
      | cons first trailer =>
          obtain ⟨before, rest', rfl, _, squeezed⟩ := squeeze_split (free first (by simp)) same
          have restFree : ∀ octet ∈ squeeze rest', octet ≠ space := by
            rw [squeezed]
            exact fun octet member => free octet (List.mem_cons_of_mem first member)
          rw [squeeze_self restFree] at squeezed
          exact ⟨before, first :: trailer, .inl isFwd, by rw [squeezed]⟩
    · rw [mem_wsp.mp isSpace] at same
      have last := squeeze_last text
      rw [same, List.getLast?_concat] at last
      exact ⟨text.dropLast, [space], .inr (mem_wsp.mpr rfl), (List.dropLast_append_getLast? space (by rw [← last]; rfl)).symm⟩
  strip := by
    rintro ⟨text, reply⟩ ⟨rest, reply'⟩ ⟨marks, found, same⟩
    simp only at found same ⊢
    by_cases double : text.head? = some space ∧ text.tail.head? = some space
    · match text, double with
      | first :: text, ⟨isFirst, isSecond⟩ =>
        cases isFirst
        cases found
        rw [same, Bool.or_false, squeeze, if_pos ⟨rfl, isSecond⟩]
    · exact .single ⟨marks, by rw [stripNext_squeeze double, found, Option.map_some], same⟩
  stripped := by
    intro text none'
    rw [stripNext_squeeze, none', Option.map_none]
    rintro ⟨isFirst, _⟩
    match text, isFirst with
    | first :: text, isFirst =>
      cases isFirst
      cases none'
  wrapper := by
    intro state next taken
    cases taken with
    | @fwd header rest trailer reply isHeader isTrailer =>
        simp only
        rw [List.append_assoc, squeeze_front (lowered_free isHeader (by decide)), mem_closing.mp isTrailer,
          squeeze_append (by decide) rest [], ← List.append_assoc]
        exact .fwd isHeader (mem_closing.mpr rfl)
  wrapped := by
    rintro text ⟨header, rest, trailer, isHeader, isTrailer, same⟩
    rw [mem_closing.mp isTrailer] at same
    obtain ⟨inner, behind, rfl, squeezed, nothing⟩ := squeeze_split (by decide) same
    rw [squeeze_eq_nil.mp nothing]
    have free := lowered_free isHeader (by decide)
    obtain ⟨before, rfl⟩ := header_concat isHeader
    rw [List.append_assoc] at squeezed
    obtain ⟨before', rest', rfl, sameBefore, _⟩ := squeeze_split (by decide) squeezed
    have beforeFree : ∀ octet ∈ squeeze before', octet ≠ space := by
      rw [sameBefore]
      exact fun octet member => free octet (List.mem_append_left _ member)
    rw [squeeze_self beforeFree] at sameBefore
    refine ⟨_, rest', _, isHeader, mem_closing.mpr rfl, ?_⟩
    rw [sameBefore]
    simp only [List.append_assoc, List.cons_append, List.nil_append]

theorem squeeze_length (text : List UInt8) : (squeeze text).length ≤ text.length := by
  induction text with
  | nil => exact le_refl 0
  | cons first text ih =>
      rw [squeeze]
      split_ifs
      · exact Nat.le_succ_of_le ih
      · exact Nat.succ_le_succ ih

theorem squeeze_length_eq (text : List UInt8) :
    ((squeeze text).length = text.length ↔ ¬ [space, space] <:+: text) ∧ (¬ [space, space] <:+: text → squeeze text = text) := by
  induction text with
  | nil => exact ⟨⟨fun _ inside => absurd inside.length_le (by decide), fun _ => rfl⟩, fun _ => rfl⟩
  | cons first text ih =>
      have starts : [space, space] <+: first :: text ↔ first = space ∧ text.head? = some space := by
        cases text with
        | nil => simp
        | cons second text =>
            rw [List.cons_prefix_cons, List.cons_prefix_cons, List.head?_cons, Option.some.injEq, eq_comm, and_congr_right_iff]
            exact fun _ => ⟨fun both => both.1.symm, fun same => ⟨same.symm, List.nil_prefix⟩⟩
      have shorter := squeeze_length text
      rw [List.infix_cons_iff, starts, squeeze]
      by_cases both : first = space ∧ text.head? = some space
      · rw [if_pos both, List.length_cons]
        exact ⟨⟨fun same => by omega, fun none' => absurd (Or.inl both) none'⟩, fun none' => absurd (Or.inl both) none'⟩
      · rw [if_neg both, List.length_cons, List.length_cons, Nat.add_right_cancel_iff, ih.1]
        simp only [both, false_or, true_and, iff_self]
        exact fun none' => congrArg (first :: ·) (ih.2 none')

end Squeeze

end Etpan.Thread
