import Etpan.Mime.Message
import Etpan.Mime.MultipartCut

namespace Etpan.Mime

open Etpan.Data Etpan.Imf

/-! Parts that begin with an empty line, which ends a header without fields. -/

structure HeadlessPart (boundary text : List UInt8) : Prop where
  nonempty : text ≠ []
  noDelimiter : hasDelimiterLine boundary (CR :: LF :: text) = false

def LaidPart (boundary part : List UInt8) : Prop :=
  LayoutPart boundary part ∨ ∃ text, part = CR :: LF :: text ∧ HeadlessPart boundary text

def handed (part : List UInt8) : List UInt8 := part.drop ((blankLine part).getD 0)

@[simp] theorem handed_headless (text : List UInt8) : handed (CR :: LF :: text) = text := by
  rw [handed, blankLine_crlf]
  rfl

section Blank

variable {text rest : List UInt8}

theorem blankLine_append {count : Nat} (blank : blankLine text = some count) : blankLine (text ++ rest) = some count := by
  induction text generalizing count with
  | nil => cases blank
  | cons ch text ih =>
      rw [blankLine] at blank
      rw [List.cons_append, blankLine]
      split at blank
      · next white =>
          obtain ⟨inner, found, rfl⟩ := Option.map_eq_some_iff.mp blank
          rw [if_pos white, ih found]
          rfl
      · next notWhite =>
          rw [if_neg notWhite]
          split at blank
          · next isCR =>
              split at blank
              · next paired =>
                  obtain ⟨after, rfl⟩ := List.head?_eq_some_iff.mp paired
                  rw [if_pos isCR, List.cons_append, List.head?_cons, if_pos rfl, blank]
              · cases blank
          · next notCR =>
              rw [if_neg notCR]
              exact blank

theorem blankLine_of_firstLine (notBlank : blankFirstLine text = false) : blankLine text = none := by
  cases blank : blankLine text with
  | none => rfl
  | some count =>
      have longer := @blankLine_append _ (CR :: LF :: []) _ blank
      rw [blankLine_part notBlank] at longer
      cases longer

theorem handed_layoutPart {boundary part : List UInt8} (ok : LayoutPart boundary part) : handed part = part := by
  rw [handed, blankLine_of_firstLine ok.notBlank]
  rfl

theorem blankLine_of_blankFirstLine (blank : blankFirstLine text = true) :
    (∃ count, blankLine text = some count) ∨ ∀ rest, blankLine (text ++ CR :: LF :: rest) = some (text.length + 2) := by
  rw [blankFirstLine] at blank
  cases content : text.dropWhile isWsp with
  | nil =>
      right
      intro rest
      have all : text.takeWhile isWsp = text := by
        have split := List.takeWhile_append_dropWhile (p := isWsp) (l := text)
        rwa [content, List.append_nil] at split
      have white : ∀ ch ∈ text, isWsp ch = true := fun ch member => List.mem_takeWhile_imp (all ▸ member)
      have notWhite : isWsp CR = false := by decide
      rw [blankLine_eq, List.dropWhile_append_of_pos white, List.takeWhile_append_of_pos white]
      simp [notWhite]
  | cons ch after =>
      left
      rw [content] at blank
      simp only [Bool.or_eq_true, beq_iff_eq, Bool.and_eq_true] at blank
      rw [blankLine_eq, content]
      rcases blank with isLF | ⟨isCR, paired⟩
      · simp [isLF]
      · simp [isCR, paired]

def isBlankChar (ch : UInt8) : Bool := isWsp ch || ch = CR || ch = LF

theorem blankLine_octets {count : Nat} (blank : blankLine text = some count) : ∀ ch ∈ text.take count, isBlankChar ch = true := by
  induction text generalizing count with
  | nil => cases blank
  | cons first text ih =>
      rw [blankLine] at blank
      split at blank
      · next white =>
          obtain ⟨inner, found, rfl⟩ := Option.map_eq_some_iff.mp blank
          intro ch member
          rw [List.take_succ_cons, List.mem_cons] at member
          rcases member with rfl | later
          · simp [isBlankChar, white]
          · exact ih found ch later
      · split at blank
        · next isCR =>
            split at blank
            · next paired =>
                cases blank
                obtain ⟨after, rfl⟩ := List.head?_eq_some_iff.mp paired
                intro ch member
                have either : ch = first ∨ ch = LF := by simpa using member
                rcases either with rfl | rfl
                · simp [isBlankChar, isCR]
                · simp [isBlankChar]
            · cases blank
        · split at blank
          · next isLF =>
              cases blank
              intro ch member
              have same : ch = first := by simpa using member
              simp [isBlankChar, same, isLF]
          · cases blank

end Blank

section Skip

variable {message : List UInt8}

/-- The blank lines before the first part: some of its text is left, or none of it and its line
end neither. -/
theorem skipBlankLines_text {rest : List UInt8} (notBlank : blankLine rest = none) (turns : Nat) :
    ∀ (text : List UInt8) (cur : Nat), message.drop cur = text ++ CR :: LF :: rest → text.length + 1 < turns →
      ∃ kept, kept <:+ text ∧ (blankFirstLine text = false → kept = text) ∧ (kept = [] ∨ blankFirstLine kept = false) ∧
        (kept = [] → ∀ ch ∈ text, isBlankChar ch = true) ∧
        message.drop (skipBlankLines message turns cur) = if kept = [] then rest else kept ++ CR :: LF :: rest := by
  induction turns with
  | zero => exact fun _ _ _ impossible => absurd impossible (Nat.not_lt_zero _)
  | succ turns ih =>
      intro text cur spelled enough
      rw [skipBlankLines, mailimfCrlfParse_skipLwsp, mailmimeMultipartNextParse, spelled]
      cases first : blankFirstLine text with
      | false =>
          have nonempty : text ≠ [] := by
            rintro rfl
            cases first
          refine ⟨text, List.suffix_refl text, fun _ => rfl, .inr first, fun empty => absurd empty nonempty, ?_⟩
          rw [blankLine_part first]
          simp only [if_neg nonempty, spelled]
      | true =>
          rcases blankLine_of_blankFirstLine first with ⟨count, blank⟩ | all
          · -- a blank line inside of the text
            have bounds := blankLine_le blank
            have behind : message.drop (cur + count) = text.drop count ++ CR :: LF :: rest := by
              rw [← List.drop_drop, spelled, List.drop_append_of_le_length bounds.2]
            obtain ⟨kept, suffix, _, notBlankKept, octets, dropped⟩ := ih (text.drop count) (cur + count) behind (by rw [List.length_drop]; omega)
            refine ⟨kept, suffix.trans (List.drop_suffix count text), by simp, notBlankKept, fun empty ch member => ?_, ?_⟩
            · rw [← List.take_append_drop count text, List.mem_append] at member
              rcases member with early | late
              · exact blankLine_octets blank ch early
              · exact octets empty ch late
            · rw [blankLine_append blank]
              exact dropped
          · -- the line end behind the text belongs to its last line
            have blank := all rest
            have behind : message.drop (cur + (text.length + 2)) = rest := by
              rw [← List.drop_drop, spelled, ← List.drop_drop, List.drop_left]
              rfl
            refine ⟨[], List.nil_suffix, by simp, .inl rfl, fun _ ch member => ?_, ?_⟩
            · refine blankLine_octets blank ch ?_
              rw [List.take_append]
              exact List.mem_append_left _ (by rwa [List.take_of_length_le (by omega)])
            · rw [blank]
              obtain ⟨turns, rfl⟩ : ∃ fewer, turns = fewer + 1 := ⟨turns - 1, by omega⟩
              simp only [skipBlankLines, mailimfCrlfParse_skipLwsp, mailmimeMultipartNextParse, behind, notBlank, if_true]

end Skip

section Slices

variable {α : Type} {parsePart : List UInt8 → Except MailimfError α} {message boundary : List UInt8} {cur : Nat}

theorem LaidPart.noDelimiter {part : List UInt8} (laid : LaidPart boundary part) : hasDelimiterLine boundary part = false := by
  rcases laid with ok | ⟨text, rfl, headless⟩
  · exact ok.noDelimiter
  · exact headless.noDelimiter

theorem LaidPart.handed {part : List UInt8} (laid : LaidPart boundary part) :
    handed part ≠ [] ∧ delimiterAfterLF boundary (handed part) = false ∧
      ∃ blank, part = blank ++ handed part ∧ ∀ rest, (blankLine (part ++ CR :: LF :: rest)).getD 0 = blank.length := by
  rcases laid with ok | ⟨text, rfl, headless⟩
  · rw [handed_layoutPart ok]
    refine ⟨ok.nonempty, ok.clean, [], rfl, fun rest => ?_⟩
    rw [blankLine_part ok.notBlank]
    rfl
  · rw [handed_headless]
    have clean := (Bool.or_eq_false_iff.mp headless.noDelimiter).2
    refine ⟨headless.nonempty, ?_, [CR, LF], rfl, fun rest => ?_⟩
    · exact @delimiterAfterLF_of_suffix boundary [CR, LF] text clean
    · rw [List.cons_append, List.cons_append, blankLine_crlf]
      rfl

theorem partsLayout_head (boundary part : List UInt8) (parts : List (List UInt8)) :
    ∃ rest, partsLayout boundary (part :: parts) = part ++ CR :: LF :: (delimiter boundary ++ rest) := by
  cases parts with
  | nil => exact ⟨[ascii '-', ascii '-', CR, LF], by simp [partsLayout]⟩
  | cons next parts => exact ⟨CR :: LF :: partsLayout boundary (next :: parts), by simp [partsLayout_cons]⟩

theorem partLoop_laid (free : BreakFree boundary) {parts : List (List UInt8)} (laid : ∀ part ∈ parts, LaidPart boundary part)
    {slice : List UInt8} (nonempty : slice ≠ []) (clean : delimiterAfterLF boundary slice = false)
    (spelled : message.drop cur = partsLayout boundary (slice :: parts)) {turns : Nat} (enough : parts.length < turns) :
    (partLoop parsePart message boundary turns cur).map Prod.fst = collectParts parsePart (slice :: parts.map handed) := by
  induction parts generalizing slice cur turns with
  | nil =>
      obtain ⟨turns, rfl⟩ : ∃ fewer, turns = fewer + 1 := ⟨turns - 1, by simp at enough; omega⟩
      have atClose : message.drop cur = slice ++ CR :: LF :: (delimiter boundary ++ ascii '-' :: ascii '-' :: CR :: LF :: []) := by
        simpa [partsLayout] using spelled
      rw [partLoop_last free nonempty clean atClose rfl, collectParts, List.map_nil, collectParts]
      cases parsePart slice with
      | error reason => cases reason <;> rfl
      | ok parsed => rfl
  | cons next parts ih =>
      have others : ∀ other ∈ parts, LaidPart boundary other := fun other member => laid other (by simp [member])
      obtain ⟨more, nextClean, blank, split, isBlank⟩ := (laid next (by simp)).handed
      rw [List.length_cons] at enough
      obtain ⟨turns, rfl⟩ : ∃ fewer, turns = fewer + 1 := ⟨turns - 1, by omega⟩
      have atPlain : message.drop cur = slice ++ CR :: LF :: (delimiter boundary ++ CR :: LF :: partsLayout boundary (next :: parts)) := by
        simpa [partsLayout_cons] using spelled
      have skipped : (blankLine (partsLayout boundary (next :: parts))).getD 0 = blank.length := by
        obtain ⟨rest, layout⟩ := partsLayout_head boundary next parts
        rw [layout, isBlank]
      have behind : message.drop (cur + slice.length + 6 + boundary.length + blank.length) = partsLayout boundary (handed next :: parts) := by
        rw [← List.drop_drop, drop_plain atPlain]
        cases parts with
        | nil =>
            rw [partsLayout, partsLayout]
            nth_rewrite 1 [split]
            simp
        | cons second parts =>
            rw [partsLayout_cons, partsLayout_cons]
            nth_rewrite 1 [split]
            simp
      have later := ih others more nextClean behind (show parts.length < turns by omega)
      rw [partLoop_turn free nonempty clean atPlain, collectParts, skipped, List.map_cons, ← later]
      cases parsePart slice with
      | error reason => cases reason <;> rfl
      | ok parsed => cases partLoop parsePart message boundary turns _ <;> rfl

end Slices

section Body

variable {fieldParse : MailimfOptionalField → Except MailimfError MailmimeField}
  {envelopeParse : List UInt8 → Except MailimfError (List MailimfOptionalField × List UInt8)} {stray : Nat → UInt8}

theorem mailmimeParseWithDefault_body {remaining : Nat} {message : List UInt8} {indx : Nat} {defaultType : MailmimeDefaultType}
    {contentType : Option MailmimeContent} {mimeFields : Option (List MailmimeField)} {mime : Mailmime}
    (parsed : mailmimeParseWithDefault fieldParse envelopeParse stray remaining message indx defaultType contentType mimeFields = .ok mime) :
    mime.head.mmBody.text = message.drop indx := by
  cases remaining with
  | zero => cases parsed
  | succ remaining =>
      simp only [mailmimeParseWithDefault] at parsed
      split at parsed
      · cases parsed
      · cases parsed
        rfl
      · obtain ⟨msgMime, _, rfl⟩ := exists_of_map_ok parsed
        rfl
      · split at parsed
        · cases parsed
        · obtain ⟨body, _, result⟩ := exists_of_map_ok parsed
          cases body <;> cases result <;> rfl

theorem mailmimeParseWithDefault_fieldless (remaining : Nat) (message : List UInt8) (indx : Nat) :
    ∃ mime, mailmimeParseWithDefault fieldParse envelopeParse stray (remaining + 1) message indx .textPlain none none = .ok mime :=
  ⟨.single (mailmimeHeadOf message indx .textPlain none none), rfl⟩

def bodyText (data : List UInt8) : List UInt8 := skipCrlf (mailimfOptionalFieldsParse data).2

theorem skipCrlf_suffix (text : List UInt8) : skipCrlf text <:+ text := by
  rw [skipCrlf]
  cases parsed : Imf.mailimfCrlfParse text with
  | none => exact List.suffix_refl text
  | some rest => exact (mailimfCrlfParse_shorter parsed).1

theorem bodyText_suffix (data : List UInt8) : bodyText data <:+ data :=
  (skipCrlf_suffix _).trans (mailimfOptionalFieldsParse_suffix data)

theorem drop_bodyText (data : List UInt8) : data.drop (data.length - (bodyText data).length) = bodyText data :=
  (List.suffix_iff_eq_drop.mp (bodyText_suffix data)).symm

theorem mailmimePartOfSlice_body {remaining : Nat} {defaultSubtype : MailmimeDefaultType} {data : List UInt8} {mime : Mailmime}
    (parsed : mailmimePartOfSlice fieldParse envelopeParse stray remaining defaultSubtype data = .ok mime) :
    mime.head.mmBody.text = bodyText data := by
  rw [mailmimePartOfSlice, partFieldsParse] at parsed
  split at parsed
  · cases parsed
  · next bodyBegin fields found =>
      obtain ⟨mimeFields, _, same⟩ := exists_of_map_ok found
      cases same
      rw [mailmimeParseWithDefault_body parsed]
      exact drop_bodyText data

structure BodyLike (text : List UInt8) : Prop where
  noField : mailimfOptionalFieldParse text = none
  noLineEnd : Imf.mailimfCrlfParse text = none

theorem bodyText_eq_iff (text : List UInt8) : bodyText text = text ↔ BodyLike text := by
  have fields := mailimfOptionalFieldsParse_none text
  constructor
  · intro same
    have noField : mailimfOptionalFieldParse text = none := by
      by_contra some'
      have short := fields.2 some'
      have suffix := (skipCrlf_suffix (mailimfOptionalFieldsParse text).2).length_le
      rw [show skipCrlf (mailimfOptionalFieldsParse text).2 = text from same] at suffix
      omega
    refine ⟨noField, ?_⟩
    rw [bodyText, fields.1 noField, skipCrlf] at same
    cases parsed : Imf.mailimfCrlfParse text with
    | none => rfl
    | some rest =>
        rw [parsed, Option.getD_some] at same
        exact absurd (congrArg List.length same) (Nat.ne_of_lt (mailimfCrlfParse_shorter parsed).2)
  · rintro ⟨noField, noLineEnd⟩
    rw [bodyText, fields.1 noField, skipCrlf, noLineEnd, Option.getD_none]

theorem mailmimePartOfSlice_bodyLike {text : List UInt8} (body : BodyLike text) (remaining : Nat) :
    ∃ mime, mailmimePartOfSlice fieldParse envelopeParse stray (remaining + 1) .textPlain text = .ok mime := by
  have noFields : partFieldsParse fieldParse text = .ok (text.length - (skipCrlf text).length, none) := by
    rw [partFieldsParse, (mailimfOptionalFieldsParse_none text).1 body.noField]
    rfl
  rw [mailmimePartOfSlice, noFields]
  exact mailmimeParseWithDefault_fieldless remaining text _

end Body

/-! ### The slices of a layout with parts without header -/

section Layout

variable {boundary : List UInt8}

/-- Behind a part that is passed as blank, its delimiter line is the beginning of the first slice. -/
def swallowedSlices (boundary : List UInt8) : List (List UInt8) → List (List UInt8)
  | [] => [delimiter boundary ++ [ascii '-', ascii '-']]
  | next :: parts => (delimiter boundary ++ CR :: LF :: next) :: parts.map handed

theorem delimiterAfterLF_breakFree {line rest : List UInt8} (free : BreakFree line) :
    delimiterAfterLF boundary (line ++ rest) = delimiterAfterLF boundary rest := by
  induction line with
  | nil => rfl
  | cons ch line ih =>
      have notLF : (ch == LF) = false := by simpa using (free ch (by simp)).2
      have tailFree : BreakFree line := fun byte member => free byte (by simp [member])
      rw [List.cons_append, delimiterAfterLF, notLF, Bool.false_and, Bool.false_or, ih tailFree]

theorem delimiterAfterLF_crlf (text : List UInt8) : delimiterAfterLF boundary (CR :: LF :: text) = hasDelimiterLine boundary text := by
  simp [delimiterAfterLF, hasDelimiterLine]

theorem blankLine_delimiter (rest : List UInt8) : blankLine (delimiter boundary ++ rest) = none := by
  have notWsp : isWsp (ascii '-') = false := by decide
  have notBreak : ascii '-' ≠ CR ∧ ascii '-' ≠ LF := by decide
  simp [delimiter, blankLine, notWsp, notBreak]

def behindPart (boundary : List UInt8) : List (List UInt8) → List UInt8
  | [] => delimiter boundary ++ [ascii '-', ascii '-', CR, LF]
  | next :: parts => delimiter boundary ++ CR :: LF :: partsLayout boundary (next :: parts)

theorem partsLayout_eq (part : List UInt8) (parts : List (List UInt8)) :
    partsLayout boundary (part :: parts) = part ++ CR :: LF :: behindPart boundary parts := by
  cases parts with
  | nil => simp [partsLayout, behindPart]
  | cons next parts => rw [partsLayout_cons, behindPart]

theorem blankLine_behindPart (parts : List (List UInt8)) : blankLine (behindPart boundary parts) = none := by
  cases parts <;> exact blankLine_delimiter _

theorem keptText_close (free : BreakFree boundary) :
    keptText (delimiter boundary ++ [ascii '-', ascii '-', CR, LF]) = delimiter boundary ++ [ascii '-', ascii '-'] := by
  have whole : delimiter boundary ++ [ascii '-', ascii '-', CR, LF] = (delimiter boundary ++ [ascii '-', ascii '-', CR]) ++ [LF] := by simp
  have noDash : dashLine false (delimiter boundary ++ [ascii '-', ascii '-', CR, LF]) = none := by
    refine dashLine_none.mpr fun indx isLF => ?_
    rw [whole] at isLF ⊢
    by_cases early : indx < (delimiter boundary ++ [ascii '-', ascii '-', CR]).length
    · rw [List.getElem?_append_left early] at isLF
      rcases List.mem_append.mp (List.mem_of_getElem? isLF) with inside | after
      · exact absurd rfl (delimiter_breakFree free LF inside).2
      · exact absurd after (by decide)
    · rw [List.getElem?_eq_none (by rw [List.length_append, List.length_singleton]; omega)]
      exact Option.some_ne_none _ ∘ Eq.symm
  rw [keptText_whole noDash, whole, withoutLineEnd_concat, if_neg (by decide), if_pos rfl]
  simp

theorem skipBlankLines_handed {message : List UInt8} {cur : Nat} {part : List UInt8} (laid : LaidPart boundary part) {rest : List UInt8}
    (spelled : message.drop cur = CR :: LF :: (part ++ CR :: LF :: rest)) (turns : Nat) :
    ∃ fewer next, turns ≤ fewer ∧ skipBlankLines message (turns + 2) cur = skipBlankLines message fewer next ∧
      message.drop next = handed part ++ CR :: LF :: rest := by
  have behind : message.drop (cur + 2) = part ++ CR :: LF :: rest := by
    rw [← List.drop_drop, spelled]
    rfl
  have passed : skipBlankLines message (turns + 2) cur = skipBlankLines message (turns + 1) (cur + 2) := by
    rw [skipBlankLines, mailimfCrlfParse_skipLwsp, mailmimeMultipartNextParse, spelled, blankLine_crlf]
  rcases laid with ok | ⟨text, rfl, _⟩
  · exact ⟨turns + 1, cur + 2, Nat.le_succ turns, passed, by rw [behind, handed_layoutPart ok]⟩
  · refine ⟨turns, cur + 2 + 2, le_refl turns, ?_, ?_⟩
    · rw [passed, skipBlankLines, mailimfCrlfParse_skipLwsp, mailmimeMultipartNextParse, behind, List.cons_append, List.cons_append, blankLine_crlf]
    · rw [handed_headless, ← List.drop_drop, behind]
      rfl

/-- The first slice is what the blank lines before it leave of the first part. -/
theorem mailmimeMultipartBodyParse_laid (stray : Nat → UInt8) (header : List UInt8) (free : BreakFree boundary) {part : List UInt8}
    {parts : List (List UInt8)} (laid : ∀ other ∈ part :: parts, LaidPart boundary other) :
    ∃ kept, kept <:+ handed part ∧ (blankFirstLine (handed part) = false → kept = handed part) ∧ (kept = [] ∨ blankFirstLine kept = false) ∧
      (kept = [] → ∀ ch ∈ handed part, isBlankChar ch = true) ∧
      HandsOver stray (header ++ multipartLayout boundary (part :: parts)) boundary header.length
        (if kept = [] then swallowedSlices boundary parts else kept :: parts.map handed) := by
  generalize isMessage : header ++ multipartLayout boundary (part :: parts) = message
  have spelled : message.drop header.length = delimiter boundary ++ CR :: LF :: partsLayout boundary (part :: parts) := by
    rw [← isMessage]
    exact List.drop_left
  have opened : message.drop (header.length + 2 + boundary.length) = CR :: LF :: (part ++ CR :: LF :: behindPart boundary parts) := by
    have offset : header.length + 2 + boundary.length = header.length + (delimiter boundary).length := by
      simp only [delimiter, List.length_cons]
      omega
    rw [offset, ← List.drop_drop, spelled, List.drop_left, partsLayout_eq]
  obtain ⟨parsed, looped⟩ := preambleLoop_delimiter (by simp) spelled
  obtain ⟨more, clean, blank, split, _⟩ := (laid part (by simp)).handed
  have others : ∀ other ∈ parts, LaidPart boundary other := fun other member => laid other (by simp [member])
  -- there are enough turns for the blank lines and for the parts
  have lengths := congrArg List.length opened
  have counted := partsLayout_length boundary (part :: parts)
  have shorter := congrArg List.length split
  rw [partsLayout_eq] at counted
  simp only [List.length_drop, List.length_cons, List.length_append] at lengths counted shorter
  obtain ⟨turns, enough⟩ : ∃ turns, message.length + 1 = turns + 2 := ⟨message.length - 1, by omega⟩
  obtain ⟨fewer, next, stillEnough, passed, atHanded⟩ := skipBlankLines_handed (laid part (by simp)) opened turns
  obtain ⟨kept, suffix, whole, notBlank, octets, atKept⟩ := skipBlankLines_text (blankLine_behindPart parts) fewer (handed part) next atHanded (by omega)
  refine ⟨kept, suffix, whole, notBlank, octets, fun α parsePart => ?_⟩
  generalize isStart : skipBlankLines message fewer next = start at atKept
  have result : (mailmimeMultipartBodyParse parsePart stray message boundary header.length).map MultipartBody.parts =
      (partLoop parsePart message boundary (message.length + 1) start).map Prod.fst := by
    rw [mailmimeMultipartBodyParse]
    simp only [parsed, looped]
    rw [enough, passed, isStart]
    cases partLoop parsePart message boundary (turns + 2) start <;> rfl
  rw [result]
  by_cases empty : kept = []
  · rw [if_pos empty] at atKept ⊢
    cases parts with
    | nil =>
        have closeClean : delimiterAfterLF boundary (delimiter boundary ++ [ascii '-', ascii '-', CR, LF]) = false := by
          rw [delimiterAfterLF_breakFree (delimiter_breakFree free)]
          rfl
        have within : start ≤ message.length := by
          by_contra outside
          rw [List.drop_eq_nil_of_le (by omega)] at atKept
          exact absurd atKept (by simp [behindPart, delimiter])
        rw [partLoop_cut parsePart closeClean atKept within, keptText_close free, if_neg (by simp), swallowedSlices]
    | cons second parts =>
        have secondLaid := others second (by simp)
        have firstClean : delimiterAfterLF boundary (delimiter boundary ++ CR :: LF :: second) = false := by
          rw [delimiterAfterLF_breakFree (delimiter_breakFree free), delimiterAfterLF_crlf]
          exact secondLaid.noDelimiter
        have atFirst : message.drop start = partsLayout boundary ((delimiter boundary ++ CR :: LF :: second) :: parts) := by
          rw [atKept, behindPart, partsLayout_eq, partsLayout_eq]
          simp
        rw [partLoop_laid free (fun other member => others other (by simp [member])) (by simp) firstClean atFirst (by
          simp only [List.length_cons] at counted
          omega), swallowedSlices]
  · rw [if_neg empty] at atKept ⊢
    have keptClean : delimiterAfterLF boundary kept = false := by
      obtain ⟨before, isHanded⟩ := suffix
      rw [← isHanded] at clean
      exact delimiterAfterLF_of_suffix clean
    rw [partLoop_laid free others empty keptClean (by rw [atKept, partsLayout_eq]) (by omega)]

end Layout

section Kept

variable (fieldParse : MailimfOptionalField → Except MailimfError MailmimeField)
  (envelopeParse : List UInt8 → Except MailimfError (List MailimfOptionalField × List UInt8)) (stray : Nat → UInt8) (remaining : Nat)

def HasBody (slice text : List UInt8) : Prop :=
  ∃ mime, mailmimePartOfSlice fieldParse envelopeParse stray (remaining + 1) .textPlain slice = .ok mime ∧ mime.head.mmBody.text = text

/-- As many slices are found as there are parts, and the ones without header have their text
as body. -/
def HeadlessKept (header boundary : List UInt8) (parts : List (List UInt8)) : Prop :=
  ∃ slices, HandsOver stray (header ++ multipartLayout boundary parts) boundary header.length slices ∧
    List.Forall₂ (fun part slice => ∀ text, part = CR :: LF :: text → HasBody fieldParse envelopeParse stray remaining slice text) parts slices

/-- No text begins with a header field or a line end, and the text of the first part does not
begin with a blank line. -/
structure PlainTexts (parts : List (List UInt8)) : Prop where
  first : ∀ text, parts.head? = some (CR :: LF :: text) → blankFirstLine text = false
  bodies : ∀ text, CR :: LF :: text ∈ parts → BodyLike text

variable {fieldParse envelopeParse stray remaining} {boundary : List UInt8}

theorem HasBody.suffix {slice text : List UInt8} (body : HasBody fieldParse envelopeParse stray remaining slice text) : text <:+ slice := by
  obtain ⟨mime, parsed, rfl⟩ := body
  rw [mailmimePartOfSlice_body parsed]
  exact bodyText_suffix slice

theorem hasBody_self (text : List UInt8) : HasBody fieldParse envelopeParse stray remaining text text ↔ BodyLike text := by
  constructor
  · rintro ⟨mime, parsed, isText⟩
    rw [mailmimePartOfSlice_body parsed] at isText
    exact (bodyText_eq_iff text).mp isText
  · intro body
    obtain ⟨mime, parsed⟩ := @mailmimePartOfSlice_bodyLike fieldParse envelopeParse stray text body remaining
    refine ⟨mime, parsed, ?_⟩
    rw [mailmimePartOfSlice_body parsed]
    exact (bodyText_eq_iff text).mpr body

theorem forall₂_handed (parts : List (List UInt8)) :
    List.Forall₂ (fun part slice => ∀ text, part = CR :: LF :: text → HasBody fieldParse envelopeParse stray remaining slice text) parts
      (parts.map handed) ↔ ∀ text, CR :: LF :: text ∈ parts → BodyLike text := by
  rw [List.forall₂_map_right_iff, List.forall₂_same]
  constructor
  · intro all text member
    have body := all _ member text rfl
    rwa [handed_headless, hasBody_self] at body
  · rintro all _ member text rfl
    rw [handed_headless, hasBody_self]
    exact all text member

theorem not_headlessKept_blank {header text : List UInt8} (free : BreakFree boundary) {parts : List (List UInt8)}
    (laid : ∀ part ∈ (CR :: LF :: text) :: parts, LaidPart boundary part) (headless : text ≠ []) (blank : blankFirstLine text = true) :
    ¬ HeadlessKept fieldParse envelopeParse stray remaining header boundary ((CR :: LF :: text) :: parts) := by
  rintro ⟨slices, hands, bodies⟩
  obtain ⟨kept, suffix, _, notBlank, octets, found⟩ := mailmimeMultipartBodyParse_laid stray header free laid
  rw [handed_headless] at suffix octets
  have same := hands.slices.symm.trans found.slices
  rw [Except.ok.injEq] at same
  rw [same] at bodies
  by_cases empty : kept = []
  · rw [if_pos empty] at bodies
    cases parts with
    | nil =>
        obtain ⟨before, whole⟩ := ((List.forall₂_cons.mp bodies).1 text rfl).suffix
        -- the text would have the last dash of the delimiter
        have last := congrArg List.getLast? whole
        rw [List.getLast?_append_of_ne_nil before headless, List.getLast?_append_of_ne_nil _ (by simp)] at last
        exact absurd (octets empty _ (List.mem_of_getLast? last)) (by decide)
    | cons next parts =>
        have lengths := bodies.length_eq
        simp [swallowedSlices] at lengths
  · rw [if_neg empty] at bodies
    have back := ((List.forall₂_cons.mp bodies).1 text rfl).suffix
    have isText : kept = text := suffix.eq_of_length (Nat.le_antisymm suffix.length_le back.length_le)
    rw [isText, blank] at notBlank
    exact notBlank.elim headless (by simp)

theorem headlessKept_iff (header : List UInt8) (free : BreakFree boundary) {parts : List (List UInt8)} (nonempty : parts ≠ [])
    (laid : ∀ part ∈ parts, LaidPart boundary part) :
    HeadlessKept fieldParse envelopeParse stray remaining header boundary parts ↔ PlainTexts parts := by
  cases parts with
  | nil => contradiction
  | cons part parts =>
      have first : HeadlessKept fieldParse envelopeParse stray remaining header boundary (part :: parts) → blankFirstLine (handed part) = false := by
        intro kept
        rcases laid part (by simp) with ok | ⟨text, rfl, headless⟩
        · rw [handed_layoutPart ok]
          exact ok.notBlank
        · rw [handed_headless, ← Bool.not_eq_true]
          exact fun blank => not_headlessKept_blank free laid headless.nonempty blank kept
      obtain ⟨kept, _, whole, _, _, found⟩ := mailmimeMultipartBodyParse_laid stray header free laid
      have slices : blankFirstLine (handed part) = false →
          (if kept = [] then swallowedSlices boundary parts else kept :: parts.map handed) = (part :: parts).map handed := by
        intro notBlank
        rw [whole notBlank, if_neg (laid part (by simp)).handed.1, List.map_cons]
      constructor
      · intro headless
        have notBlank := first headless
        refine ⟨fun text isFirst => ?_, ?_⟩
        · rw [List.head?_cons, Option.some.injEq] at isFirst
          rwa [isFirst, handed_headless] at notBlank
        · obtain ⟨handedOver, hands, bodies⟩ := headless
          have same := hands.slices.symm.trans found.slices
          rw [Except.ok.injEq, slices notBlank] at same
          rw [same] at bodies
          exact (forall₂_handed _).mp bodies
      · intro plain
        have notBlank : blankFirstLine (handed part) = false := by
          rcases laid part (by simp) with ok | ⟨text, rfl, _⟩
          · rw [handed_layoutPart ok]
            exact ok.notBlank
          · rw [handed_headless]
            exact plain.first text rfl
        rw [slices notBlank] at found
        exact ⟨_, found, (forall₂_handed _).mpr plain.bodies⟩

end Kept

/-- Behind the last delimiter line nothing is lost just when there is more than a line end, no
blank first line, and no other line that begins with a dash.  Parts without header keep their
texts just when none of these begins with a header field or a line end, and that of the first
part not with a blank line. -/
theorem mailmimeMultipartBodyParse_keepsContent (fieldParse : MailimfOptionalField → Except MailimfError MailmimeField)
    (envelopeParse : List UInt8 → Except MailimfError (List MailimfOptionalField × List UInt8)) (stray : Nat → UInt8) (header : List UInt8)
    {boundary : List UInt8} (free : BreakFree boundary) :
    (∀ parts rest, (∀ part ∈ parts, LayoutPart boundary part) → hasDelimiterLine boundary rest = false →
      (CutKept stray header boundary parts rest ↔ PlainEnd rest)) ∧
    ∀ remaining parts, parts ≠ [] → (∀ part ∈ parts, LaidPart boundary part) →
      (HeadlessKept fieldParse envelopeParse stray remaining header boundary parts ↔ PlainTexts parts) :=
  ⟨fun _ _ ok noDelimiter => cutKept_iff stray header free ok noDelimiter,
    fun _ _ nonempty laid => headlessKept_iff header free nonempty laid⟩

theorem mailmimeMultipartBodyParse_keepsContent_plain :
    CutKept (fun _ => 0) [] [ascii 'b'] [[ascii 'x']] [ascii 'y', CR, LF] ∧
      HeadlessKept (fun _ => .error .parse) (fun _ => .error .parse) (fun _ => 0) 0 [] [ascii 'b'] [[CR, LF, ascii 'h']] := by
  have keeps := mailmimeMultipartBodyParse_keepsContent (fun _ => .error .parse) (fun _ => .error .parse) (fun _ => 0) []
    (show BreakFree [ascii 'b'] by decide)
  constructor
  · have ok : ∀ part ∈ [[ascii 'x']], LayoutPart [ascii 'b'] part := by
      intro part member
      rw [List.mem_singleton.mp member]
      exact ⟨by decide, by decide, by decide⟩
    refine (keeps.1 _ _ ok (by decide)).mpr ⟨by decide, by decide, ?_⟩
    rintro (_ | _ | _ | _) isLF
    · exact absurd isLF (by decide)
    · exact absurd isLF (by decide)
    · decide
    · simp
  · have laid : ∀ part ∈ [[CR, LF, ascii 'h']], LaidPart [ascii 'b'] part := by
      intro part member
      rw [List.mem_singleton.mp member]
      exact .inr ⟨[ascii 'h'], rfl, by decide, by decide⟩
    refine (keeps.2 0 _ (by decide) laid).mpr ⟨fun text isFirst => ?_, fun text member => ?_⟩
    · have isText : text = [ascii 'h'] := by simpa using isFirst.symm
      rw [isText]
      decide
    · have isText : text = [ascii 'h'] := by simpa using member
      rw [isText]
      exact ⟨by decide, by decide⟩

/-- The text "x" CRLF "-y" behind the last delimiter line is cut to "x", and the text "a:b" CRLF
of a part without header is taken for its header. -/
theorem mailmimeMultipartBodyParse_dropsContent :
    (hasDelimiterLine [ascii 'b'] [ascii 'x', CR, LF, ascii '-', ascii 'y'] = false ∧
      ¬ CutKept (fun _ => 0) [] [ascii 'b'] [] [ascii 'x', CR, LF, ascii '-', ascii 'y']) ∧
    (LaidPart [ascii 'b'] [CR, LF, ascii 'a', ascii ':', ascii 'b', CR, LF] ∧
      ¬ HeadlessKept (fun _ => .error .parse) (fun _ => .error .parse) (fun _ => 0) 0 [] [ascii 'b']
        [[CR, LF, ascii 'a', ascii ':', ascii 'b', CR, LF]]) := by
  have laid : LaidPart [ascii 'b'] [CR, LF, ascii 'a', ascii ':', ascii 'b', CR, LF] := .inr ⟨_, rfl, by decide, by decide⟩
  refine ⟨⟨by decide, fun kept => absurd kept.slices (by decide)⟩, laid, fun kept => ?_⟩
  have plain := (headlessKept_iff [] (by decide) (by decide) (by simpa using laid)).mp kept
  exact absurd (plain.bodies _ List.mem_cons_self).noField (by decide)

end Etpan.Mime
