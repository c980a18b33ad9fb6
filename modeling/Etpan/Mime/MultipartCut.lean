import Etpan.Mime.MultipartLayout

namespace Etpan.Mime

open Etpan.Data Etpan.Imf

/-! A multipart body whose close delimiter is missing. -/

def withoutLineEnd (text : List UInt8) : List UInt8 :=
  if text.getLast? = some CR then text.dropLast
  else if text.getLast? = some LF then if text.dropLast.getLast? = some CR then text.dropLast.dropLast else text.dropLast
  else text

def dashLine (afterLF : Bool) : List UInt8 → Option Nat
  | [] => none
  | ch :: rest =>
      match dashLine (ch == LF) rest with
      | some place => some (place + 1)
      | none => if afterLF ∧ ch = ascii '-' then some 0 else none

/-- The slice that is taken of a text without delimiters: `end_text` stays at the last line
that begins with a dash. -/
def keptText (text : List UInt8) : List UInt8 := withoutLineEnd (text.take ((dashLine false text).getD text.length))

section Trim

theorem withoutLineEnd_concat (text : List UInt8) (ch : UInt8) :
    withoutLineEnd (text ++ [ch]) = if ch = CR then text else if ch = LF then if text.getLast? = some CR then text.dropLast else text else text ++ [ch] := by
  simp [withoutLineEnd]

theorem prefix_withoutLineEnd (text : List UInt8) : withoutLineEnd text <+: text := by
  rw [withoutLineEnd]
  split
  · exact List.dropLast_prefix text
  · split
    · split
      · exact (List.dropLast_prefix _).trans (List.dropLast_prefix text)
      · exact List.dropLast_prefix text
    · exact List.prefix_refl text

theorem withoutLineEnd_append {before text : List UInt8} (more : withoutLineEnd text ≠ []) :
    withoutLineEnd (before ++ text) = before ++ withoutLineEnd text := by
  rcases List.eq_nil_or_concat text with rfl | ⟨front, ch, rfl⟩
  · exact absurd rfl more
  · rw [List.concat_eq_append] at more ⊢
    rw [withoutLineEnd_concat] at more
    rw [← List.append_assoc, withoutLineEnd_concat, withoutLineEnd_concat]
    by_cases isCR : ch = CR
    · simp only [isCR, if_true]
    · by_cases isLF : ch = LF
      · simp only [if_neg isCR, if_pos isLF] at more ⊢
        have nonempty : front ≠ [] := by
          rintro rfl
          exact more rfl
        rw [List.getLast?_append_of_ne_nil before nonempty, List.dropLast_append_of_ne_nil nonempty]
        by_cases paired : front.getLast? = some CR
        · rw [if_pos paired, if_pos paired]
        · rw [if_neg paired, if_neg paired]
      · simp only [isCR, isLF, if_false, List.append_assoc]

theorem trimEol_text {message text rest : List UInt8} {cur : Nat} (spelled : message.drop cur = text ++ rest) :
    trimEol message cur (cur + text.length) = cur + (withoutLineEnd text).length := by
  have inText : ∀ {place} (_ : place < text.length), message[cur + place]? = text[place]? := by
    intro place inside
    rw [getElem?_of_drop spelled, List.getElem?_append_left inside]
  rcases List.eq_nil_or_concat text with rfl | ⟨front, ch, rfl⟩
  · simp [trimEol, withoutLineEnd]
  · rw [List.concat_eq_append] at inText ⊢
    have last : message[cur + front.length]? = some ch := by
      rw [inText (by simp)]
      simp
    have size : cur + (front ++ [ch]).length = cur + front.length + 1 := by simp [Nat.add_assoc]
    rw [trimEol, size, if_neg (by omega), Nat.add_sub_cancel, last, withoutLineEnd_concat]
    simp only [Option.some.injEq]
    by_cases isCR : ch = CR
    · rw [if_pos isCR, if_pos isCR]
    · rw [if_neg isCR, if_neg isCR]
      by_cases isLF : ch = LF
      · rw [if_pos isLF, if_pos isLF]
        rcases List.eq_nil_or_concat front with rfl | ⟨front', before, rfl⟩
        · simp
        · rw [List.concat_eq_append] at inText ⊢
          have beforeLast : message[cur + (front' ++ [before]).length + 1 - 2]? = some before := by
            rw [show cur + (front' ++ [before]).length + 1 - 2 = cur + front'.length by simp, inText (by simp)]
            simp
          rw [if_neg (by simp), beforeLast, List.getLast?_concat]
          by_cases paired : before = CR
          · simp [paired]
          · simp [paired]
      · rw [if_neg isLF, if_neg isLF]
        simp [Nat.add_assoc]

theorem dashLine_spec {text : List UInt8} {afterLF : Bool} {place : Nat} (found : dashLine afterLF text = some place) :
    text[place]? = some (ascii '-') ∧ (place = 0 ∧ afterLF = true ∨ 0 < place ∧ text[place - 1]? = some LF) := by
  induction text generalizing afterLF place with
  | nil => cases found
  | cons ch rest ih =>
      rw [dashLine] at found
      split at found
      · next inner later =>
          cases found
          obtain ⟨dash, start⟩ := ih later
          refine ⟨dash, .inr ⟨Nat.succ_pos inner, ?_⟩⟩
          rcases start with ⟨rfl, isLF⟩ | ⟨positive, isLF⟩
          · simpa using isLF
          · obtain ⟨before, rfl⟩ := Nat.exists_eq_add_of_le' positive
            simpa using isLF
      · split at found
        · next here =>
            cases found
            exact ⟨congrArg some here.2, .inl ⟨rfl, here.1⟩⟩
        · cases found

end Trim

section Scan

variable {boundary : List UInt8}

theorem dash2Step_s2 {state : Dash2State} (notLast : state ≠ .s4) (ch : UInt8) : dash2Step state ch = .s2 ↔ ch = LF := by
  revert ch
  cases state <;> first | contradiction | exact forall_octet (by decide +kernel)

theorem dash2Scan_clean (text : List UInt8) (state : Dash2State) (cur endText : Nat) (clean : delimiterAfterLF boundary text = false)
    (unmatched : Unmatched boundary state text) :
    dash2Scan boundary state text cur endText =
      (cur + text.length, ((dashLine (decide (state = .s2)) text).map (cur + ·)).getD endText) := by
  induction text generalizing state cur endText with
  | nil => simp [dash2Scan, dashLine]
  | cons ch text ih =>
      simp only [delimiterAfterLF, Bool.or_eq_false_iff] at clean
      have afterLF : ch = LF → (delimiter boundary).isPrefixOf text = false := by
        rintro rfl
        simpa using clean.1
      -- the same place, counted from the octet before
      have shifted : ∀ (afterLF : Bool) (endText : Nat),
          (cur + 1 + text.length, ((dashLine afterLF text).map (cur + 1 + ·)).getD endText) =
            (cur + (ch :: text).length, ((dashLine afterLF text).map (fun place => cur + (place + 1))).getD endText) := by
        intro afterLF endText
        have same : (fun place => cur + 1 + place) = fun place => cur + (place + 1) := by
          funext place
          omega
        rw [List.length_cons, same, Prod.mk.injEq]
        exact ⟨by omega, rfl⟩
      by_cases last : state = .s4
      · subst last
        have mismatch : boundaryHere boundary (ch :: text) = false := by
          rw [boundaryHere, unmatched boundary rfl, Bool.and_false]
        have stepped : decide (dash2Step .s0 ch = .s2) = (ch == LF) := by
          rw [decide_eq_decide.mpr (@dash2Step_s2 .s0 (by decide) ch)]
          exact (beq_eq_decide ch LF).symm
        rw [dash2Scan_mismatch mismatch, ih _ _ _ clean.2 (Unmatched.step afterLF (by simp [Unmatched, awaited])), shifted, stepped, dashLine]
        cases dashLine (ch == LF) text with
        | none => simp
        | some place => simp
      · have stepped : decide (dash2Step state ch = .s2) = (ch == LF) := by
          rw [decide_eq_decide.mpr (dash2Step_s2 last ch)]
          exact (beq_eq_decide ch LF).symm
        rw [dash2Scan_step last, ih _ _ _ clean.2 (Unmatched.step afterLF unmatched), shifted, stepped, dashLine]
        cases dashLine (ch == LF) text with
        | none =>
            by_cases here : state = .s2 ∧ ch = ascii '-'
            · simp [here.1, here.2]
            · rw [if_neg here, if_neg (by simpa using here)]
              rfl
        | some place => rfl

variable {message : List UInt8} {cur : Nat} {text : List UInt8}

theorem dashLine_lt {afterLF : Bool} {place : Nat} (found : dashLine afterLF text = some place) : place < text.length :=
  (List.getElem?_eq_some_iff.mp (dashLine_spec found).1).1

theorem mailmimeBodyPartDash2Parse_cut (clean : delimiterAfterLF boundary text = false) (spelled : message.drop cur = text)
    (within : cur ≤ message.length) :
    mailmimeBodyPartDash2Parse message boundary cur =
      if keptText text = [] then .error .parse else .ok (message.length, cur + (keptText text).length) := by
  have size : message.length = cur + text.length := by
    rw [← spelled, List.length_drop]
    omega
  have scanned := dash2Scan_clean text .s0 cur message.length clean (by simp [Unmatched, awaited])
  have stops : ((dashLine (decide (Dash2State.s0 = .s2)) text).map (cur + ·)).getD message.length =
      cur + (text.take ((dashLine false text).getD text.length)).length := by
    rw [List.length_take, show decide (Dash2State.s0 = .s2) = false from rfl, size]
    cases found : dashLine false text with
    | none => simp
    | some place =>
        have inside := dashLine_lt found
        simp only [Option.map_some, Option.getD_some]
        omega
  have split : message.drop cur = text.take ((dashLine false text).getD text.length) ++ text.drop ((dashLine false text).getD text.length) := by
    rw [spelled, List.take_append_drop]
  rw [mailmimeBodyPartDash2Parse]
  simp only [spelled, scanned, stops, trimEol_text split]
  rw [show withoutLineEnd (text.take ((dashLine false text).getD text.length)) = keptText text from rfl, Nat.add_sub_cancel_left, size]
  simp only [List.length_eq_zero_iff]

theorem plainAfterLF_clean (text : List UInt8) (clean : delimiterAfterLF boundary text = false) : plainAfterLF boundary text = false := by
  induction text with
  | nil => rfl
  | cons ch rest ih =>
      simp only [delimiterAfterLF, Bool.or_eq_false_iff, Bool.and_eq_false_iff] at clean
      rw [plainAfterLF, ih clean.2, Bool.or_false, Bool.and_eq_false_iff, plainHere]
      exact clean.1.imp id fun noDelimiter => by rw [noDelimiter, Bool.false_and]

variable {α : Type} {parsePart : List UInt8 → Except MailimfError α}

variable (parsePart) in
theorem partLoop_cut (clean : delimiterAfterLF boundary text = false) (spelled : message.drop cur = text) (within : cur ≤ message.length)
    (turns : Nat) :
    (partLoop parsePart message boundary (turns + 1) cur).map Prod.fst =
      if keptText text = [] then .error .parse else collectParts parsePart [keptText text] := by
  have transport : mailmimeBodyPartDash2TransportCrlfParse message boundary cur = .error .parse :=
    transportCrlfLoop_none _ cur (by rw [spelled, plainAfterLF_clean text clean])
  have close : mailmimeBodyPartDash2CloseParse message boundary cur =
      if keptText text = [] then .error .parse else .ok (message.length, cur + (keptText text).length) := by
    rw [mailmimeBodyPartDash2CloseParse, closeLoop, mailmimeBodyPartDash2Parse_cut clean spelled within]
    by_cases empty : keptText text = []
    · simp only [if_pos empty]
    · simp only [if_neg empty, if_pos (le_refl message.length)]
  rw [partLoop]
  by_cases empty : keptText text = []
  · simp only [transport, close, if_pos empty]
    rfl
  · have slice : (message.drop cur).take (cur + (keptText text).length - cur) = keptText text := by
      have starts : keptText text <+: text := (prefix_withoutLineEnd _).trans (List.take_prefix _ text)
      rw [spelled, Nat.add_sub_cancel_left, ← List.prefix_iff_eq_take.mp starts]
    simp only [transport, close, if_neg empty, slice, collectParts]
    cases parsePart (keptText text) with
    | error reason => cases reason <;> rfl
    | ok part => rfl

end Scan

def delimitedParts (boundary : List UInt8) : List (List UInt8) → List UInt8
  | [] => []
  | part :: parts => part ++ CR :: LF :: (delimiter boundary ++ CR :: LF :: delimitedParts boundary parts)

def cutLayout (boundary : List UInt8) (parts : List (List UInt8)) (rest : List UInt8) : List UInt8 :=
  delimiter boundary ++ CR :: LF :: (delimitedParts boundary parts ++ rest)

section Cut

variable {α : Type} {parsePart : List UInt8 → Except MailimfError α} {message boundary : List UInt8} {cur : Nat}

/-- Like `collectParts`, with what comes after the slices. -/
def collectThen (parsePart : List UInt8 → Except MailimfError α) (last : Except MailimfError (List α)) :
    List (List UInt8) → Except MailimfError (List α)
  | [] => last
  | part :: parts =>
      match parsePart part with
      | .error .parse => .ok []
      | .error reason => .error reason
      | .ok parsed => (collectThen parsePart last parts).map (parsed :: ·)

theorem collectThen_ok (last : Except MailimfError (List (List UInt8))) (parts : List (List UInt8)) :
    collectThen .ok last parts = last.map (parts ++ ·) := by
  induction parts with
  | nil => cases last <;> rfl
  | cons part parts ih =>
      simp only [collectThen, ih]
      cases last <;> rfl

def lastSlice (parsePart : List UInt8 → Except MailimfError α) (rest : List UInt8) : Except MailimfError (List α) :=
  if keptText rest = [] then .error .parse else collectParts parsePart [keptText rest]

theorem delimiterAfterLF_of_suffix {before rest : List UInt8} (clean : delimiterAfterLF boundary (before ++ rest) = false) :
    delimiterAfterLF boundary rest = false := by
  induction before with
  | nil => exact clean
  | cons ch before ih =>
      rw [List.cons_append, delimiterAfterLF, Bool.or_eq_false_iff] at clean
      exact ih clean.2

theorem blankLine_le {text : List UInt8} {count : Nat} (blank : blankLine text = some count) : 0 < count ∧ count ≤ text.length := by
  obtain ⟨before, rest, rfl, rfl⟩ := blankLine_ends blank
  rw [List.length_append, List.length_cons]
  omega

theorem drop_blank_le (text : List UInt8) : (blankLine text).getD 0 ≤ text.length := by
  cases blank : blankLine text with
  | none => exact Nat.zero_le _
  | some count => exact (blankLine_le blank).2

theorem partLoop_delimitedParts (free : BreakFree boundary) {parts : List (List UInt8)} (ok : ∀ part ∈ parts, LayoutPart boundary part)
    {rest : List UInt8} (clean : delimiterAfterLF boundary rest = false) (nonempty : parts ≠ [])
    (spelled : message.drop cur = delimitedParts boundary parts ++ rest) {turns : Nat} (enough : parts.length < turns) :
    (partLoop parsePart message boundary turns cur).map Prod.fst =
      collectThen parsePart (lastSlice parsePart (rest.drop ((blankLine rest).getD 0))) parts := by
  induction parts generalizing cur turns with
  | nil => contradiction
  | cons part parts ih =>
      have this := ok part (by simp)
      have others : ∀ other ∈ parts, LayoutPart boundary other := fun other member => ok other (by simp [member])
      rw [List.length_cons] at enough
      obtain ⟨turns, rfl⟩ : ∃ fewer, turns = fewer + 1 := ⟨turns - 1, by omega⟩
      have atPlain : message.drop cur = part ++ CR :: LF ::
          (delimiter boundary ++ CR :: LF :: (delimitedParts boundary parts ++ rest)) := by
        simpa [delimitedParts] using spelled
      have behind := drop_plain atPlain
      rw [partLoop_turn free this.nonempty this.clean atPlain, collectThen]
      cases parsePart part with
      | error reason => cases reason <;> rfl
      | ok parsed =>
          cases parts with
          | nil =>
              obtain ⟨turns, rfl⟩ : ∃ fewer, turns = fewer + 1 := ⟨turns - 1, by omega⟩
              have atRest : message.drop (cur + part.length + 6 + boundary.length + (blankLine rest).getD 0) =
                  rest.drop ((blankLine rest).getD 0) := by
                rw [← List.drop_drop, behind]
                rfl
              have restClean : delimiterAfterLF boundary (rest.drop ((blankLine rest).getD 0)) = false := by
                rw [← List.take_append_drop ((blankLine rest).getD 0) rest] at clean
                exact delimiterAfterLF_of_suffix clean
              have within : cur + part.length + 6 + boundary.length + (blankLine rest).getD 0 ≤ message.length := by
                have lengths := congrArg List.length atPlain
                have inside := drop_blank_le rest
                simp only [List.length_drop, List.length_append, List.length_cons, delimiter, delimitedParts, List.nil_append] at lengths
                omega
              have last := partLoop_cut parsePart restClean atRest within turns
              rw [collectThen, lastSlice, ← last]
              simp only [delimitedParts, List.nil_append]
              cases partLoop parsePart message boundary (turns + 1) _ <;> rfl
          | cons next parts =>
              have notBlank : blankLine (delimitedParts boundary (next :: parts) ++ rest) = none := by
                simpa [delimitedParts] using blankLine_part (others next (by simp)).notBlank _
              have later := ih others (by simp) behind (by simpa using enough)
              rw [notBlank, ← later]
              simp only [Option.getD_none, Nat.add_zero]
              cases partLoop parsePart message boundary turns _ <;> rfl

theorem skipBlankLines_spec (turns : Nat) : ∀ cur, (message.drop cur).length < turns →
    ∃ count, skipBlankLines message turns cur = cur + count ∧ count ≤ (message.drop cur).length ∧
      blankLine (message.drop (cur + count)) = none ∧ (count = 0 ↔ blankLine (message.drop cur) = none) := by
  induction turns with
  | zero => exact fun _ impossible => absurd impossible (Nat.not_lt_zero _)
  | succ turns ih =>
      intro cur enough
      rw [skipBlankLines, mailimfCrlfParse_skipLwsp, mailmimeMultipartNextParse]
      cases blank : blankLine (message.drop cur) with
      | none => exact ⟨0, rfl, Nat.zero_le _, blank, by simp⟩
      | some first =>
          have bounds := blankLine_le blank
          simp only
          obtain ⟨count, skipped, within, notBlank, _⟩ := ih (cur + first) (by
            rw [← List.drop_drop, List.length_drop]
            omega)
          refine ⟨first + count, by rw [skipped, Nat.add_assoc], ?_, by rwa [← Nat.add_assoc], ?_⟩
          · rw [← List.drop_drop, List.length_drop] at within
            omega
          · simp only [reduceCtorEq, iff_false]
            omega

theorem delimitedParts_length (boundary : List UInt8) (parts : List (List UInt8)) : parts.length ≤ (delimitedParts boundary parts).length := by
  induction parts with
  | nil => exact Nat.zero_le _
  | cons part parts ih =>
      simp only [delimitedParts, List.length_append, List.length_cons]
      omega

variable (parsePart) in
theorem mailmimeMultipartBodyParse_cutLayout (stray : Nat → UInt8) (header : List UInt8) (free : BreakFree boundary)
    {parts : List (List UInt8)} (ok : ∀ part ∈ parts, LayoutPart boundary part) {rest : List UInt8}
    (clean : delimiterAfterLF boundary rest = false) :
    ∃ count, count ≤ rest.length ∧ (count = 0 ↔ blankLine rest = none) ∧
      (mailmimeMultipartBodyParse parsePart stray (header ++ cutLayout boundary parts rest) boundary header.length).map MultipartBody.parts =
        collectThen parsePart (lastSlice parsePart (rest.drop count)) parts := by
  generalize isMessage : header ++ cutLayout boundary parts rest = message
  have spelled : message.drop header.length = delimiter boundary ++ CR :: LF :: (delimitedParts boundary parts ++ rest) := by
    rw [← isMessage]
    exact List.drop_left
  have opened : message.drop (header.length + 2 + boundary.length) = CR :: LF :: (delimitedParts boundary parts ++ rest) := by
    have offset : header.length + 2 + boundary.length = header.length + (delimiter boundary).length := by
      simp only [delimiter, List.length_cons]
      omega
    rw [offset, ← List.drop_drop, spelled, List.drop_left]
  obtain ⟨parsed, looped⟩ := preambleLoop_delimiter (by simp) spelled
  have dropped : message.drop (header.length + 2 + boundary.length + 2) = delimitedParts boundary parts ++ rest := by
    rw [← List.drop_drop, opened]
    rfl
  have lengths := congrArg List.length opened
  have counted := delimitedParts_length boundary parts
  rw [List.length_drop, List.length_cons, List.length_cons, List.length_append] at lengths
  -- the line end of the delimiter, and then the blank lines
  have skips : skipBlankLines message (message.length + 1) (header.length + 2 + boundary.length) =
      skipBlankLines message message.length (header.length + 2 + boundary.length + 2) := by
    rw [skipBlankLines, mailimfCrlfParse_skipLwsp, mailmimeMultipartNextParse, opened, blankLine_crlf]
  obtain ⟨count, skipped, within, notBlank, isNone⟩ := skipBlankLines_spec message.length (header.length + 2 + boundary.length + 2)
    (show (message.drop (header.length + 2 + boundary.length + 2)).length < message.length by rw [List.length_drop]; omega)
  have result : (mailmimeMultipartBodyParse parsePart stray message boundary header.length).map MultipartBody.parts =
      (partLoop parsePart message boundary (message.length + 1) (header.length + 2 + boundary.length + 2 + count)).map Prod.fst := by
    rw [mailmimeMultipartBodyParse]
    simp only [parsed, looped, skips, skipped]
    cases partLoop parsePart message boundary (message.length + 1) (header.length + 2 + boundary.length + 2 + count) <;> rfl
  rw [dropped] at within isNone
  cases parts with
  | nil =>
      simp only [delimitedParts, List.nil_append] at within isNone dropped
      have atRest : message.drop (header.length + 2 + boundary.length + 2 + count) = rest.drop count := by
        rw [← List.drop_drop, dropped]
      have restClean : delimiterAfterLF boundary (rest.drop count) = false := by
        rw [← List.take_append_drop count rest] at clean
        exact delimiterAfterLF_of_suffix clean
      refine ⟨count, within, isNone, ?_⟩
      rw [result, partLoop_cut parsePart restClean atRest (by omega), collectThen, lastSlice]
  | cons part parts =>
      have partNotBlank : blankLine (delimitedParts boundary (part :: parts) ++ rest) = none := by
        simpa [delimitedParts] using blankLine_part (ok part (by simp)).notBlank _
      have none' := isNone.mpr partNotBlank
      rw [none', Nat.add_zero] at result
      refine ⟨(blankLine rest).getD 0, drop_blank_le rest, ?_, ?_⟩
      · cases blank : blankLine rest with
        | none => simp
        | some count => simpa using Nat.ne_of_gt (blankLine_le blank).1
      · rw [result]
        exact partLoop_delimitedParts free ok clean (by simp) dropped (by omega)

end Cut

def HandsOver (stray : Nat → UInt8) (message boundary : List UInt8) (indx : Nat) (slices : List (List UInt8)) : Prop :=
  ∀ (α : Type) (parsePart : List UInt8 → Except MailimfError α),
    (mailmimeMultipartBodyParse parsePart stray message boundary indx).map MultipartBody.parts = collectParts parsePart slices

theorem HandsOver.slices {stray : Nat → UInt8} {message boundary : List UInt8} {indx : Nat} {slices : List (List UInt8)}
    (hands : HandsOver stray message boundary indx slices) :
    (mailmimeMultipartBodyParse .ok stray message boundary indx).map MultipartBody.parts = .ok slices := by
  rw [hands, collectParts_ok]

/-- The parts and the text behind the last delimiter line are found, without one line end. -/
def CutKept (stray : Nat → UInt8) (header boundary : List UInt8) (parts : List (List UInt8)) (rest : List UInt8) : Prop :=
  HandsOver stray (header ++ cutLayout boundary parts rest) boundary header.length (parts ++ [withoutLineEnd rest])

/-- More than a line end, no blank first line, and no line but the first that begins with a dash. -/
structure PlainEnd (rest : List UInt8) : Prop where
  more : withoutLineEnd rest ≠ []
  notBlank : blankLine rest = none
  noDash : ∀ indx, rest[indx]? = some LF → rest[indx + 1]? ≠ some (ascii '-')

theorem dashLine_none {text : List UInt8} : dashLine false text = none ↔ ∀ indx, text[indx]? = some LF → text[indx + 1]? ≠ some (ascii '-') := by
  have general : ∀ afterLF, dashLine afterLF text = none ↔
      ¬ (afterLF = true ∧ text[0]? = some (ascii '-')) ∧ ∀ indx, text[indx]? = some LF → text[indx + 1]? ≠ some (ascii '-') := by
    induction text with
    | nil => simp [dashLine]
    | cons ch rest ih =>
        intro afterLF
        have later := ih (ch == LF)
        have split : (∀ indx, (ch :: rest)[indx]? = some LF → (ch :: rest)[indx + 1]? ≠ some (ascii '-')) ↔
            ¬ ((ch == LF) = true ∧ rest[0]? = some (ascii '-')) ∧ ∀ indx, rest[indx]? = some LF → rest[indx + 1]? ≠ some (ascii '-') := by
          constructor
          · intro all
            refine ⟨fun both => all 0 (by simpa using both.1) (by simpa using both.2), fun indx isLF => ?_⟩
            simpa using all (indx + 1) (by simpa using isLF)
          · rintro ⟨first, others⟩ (_ | indx) isLF
            · simp only [List.getElem?_cons_zero, Option.some.injEq] at isLF
              simpa [isLF] using first
            · simpa using others indx (by simpa using isLF)
        rw [split, ← later, dashLine]
        cases dashLine (ch == LF) rest with
        | none => simp
        | some place => simp
  simpa using general false

theorem withoutLineEnd_cons {ch : UInt8} (notCR : ch ≠ CR) (notLF : ch ≠ LF) (after : List UInt8) : withoutLineEnd (ch :: after) ≠ [] := by
  rcases List.eq_nil_or_concat after with rfl | ⟨front, last, rfl⟩
  · rw [← List.nil_append [ch], withoutLineEnd_concat, if_neg notCR, if_neg notLF]
    simp
  · rw [List.concat_eq_append, ← List.cons_append, withoutLineEnd_concat]
    split
    · simp
    · split
      · cases front with
        | nil => simp [notCR]
        | cons second front =>
            split
            · simp
            · simp
      · simp

theorem keptText_lt {text : List UInt8} {place : Nat} (found : dashLine false text = some place) :
    (keptText text).length < (withoutLineEnd text).length := by
  obtain ⟨dash, start⟩ := dashLine_spec found
  have inside := dashLine_lt found
  obtain ⟨positive, lf⟩ := start.resolve_left (by simp)
  obtain ⟨before, rfl⟩ : ∃ before, place = before + 1 := ⟨place - 1, by omega⟩
  rw [Nat.add_sub_cancel] at lf
  have kept : (keptText text).length ≤ before := by
    have taken : text.take (before + 1) = text.take before ++ [LF] := by
      rw [List.take_add_one, lf]
      rfl
    rw [keptText, found, Option.getD_some, taken, withoutLineEnd_concat, if_neg (by decide), if_pos rfl]
    split
    · rw [List.length_dropLast, List.length_take]
      omega
    · rw [List.length_take]
      omega
  have whole : text = text.take (before + 1) ++ ascii '-' :: text.drop (before + 2) := by
    have tail : text.drop (before + 1) = ascii '-' :: text.drop (before + 2) := by
      rw [List.drop_eq_getElem_cons inside]
      rw [List.getElem?_eq_getElem inside] at dash
      rw [Option.some.inj dash]
    rw [← tail, List.take_append_drop]
  have more := @withoutLineEnd_cons (ascii '-') (by decide) (by decide) (text.drop (before + 2))
  calc (keptText text).length ≤ before := kept
    _ < (text.take (before + 1)).length := by rw [List.length_take]; omega
    _ ≤ (withoutLineEnd (text.take (before + 1) ++ ascii '-' :: text.drop (before + 2))).length := by
        rw [withoutLineEnd_append more, List.length_append]
        omega
    _ = (withoutLineEnd text).length := by rw [← whole]

theorem keptText_whole {text : List UInt8} (none' : dashLine false text = none) : keptText text = withoutLineEnd text := by
  rw [keptText, none', Option.getD_none, List.take_length]

theorem keptText_le (text : List UInt8) : (keptText text).length ≤ (withoutLineEnd text).length := by
  cases found : dashLine false text with
  | none => exact le_of_eq (congrArg List.length (keptText_whole found))
  | some place => exact le_of_lt (keptText_lt found)

theorem keptText_drop {rest : List UInt8} {count : Nat} (within : count ≤ rest.length) (more : keptText (rest.drop count) ≠ []) :
    keptText (rest.drop count) = withoutLineEnd rest ↔ count = 0 ∧ dashLine false rest = none := by
  constructor
  · intro same
    have nonempty : withoutLineEnd (rest.drop count) ≠ [] := by
      intro empty
      have short := keptText_le (rest.drop count)
      rw [empty] at short
      exact more (List.length_eq_zero_iff.mp (Nat.le_zero.mp short))
    have split := @withoutLineEnd_append (rest.take count) _ nonempty
    rw [List.take_append_drop] at split
    have lengths := congrArg List.length same
    have bound := keptText_le (rest.drop count)
    rw [split, List.length_append, List.length_take, Nat.min_eq_left within] at lengths
    have zero : count = 0 := by omega
    refine ⟨zero, ?_⟩
    rw [zero, List.drop_zero] at same
    by_contra some'
    obtain ⟨place, found⟩ := Option.ne_none_iff_exists'.mp some'
    exact absurd (congrArg List.length same) (Nat.ne_of_lt (keptText_lt found))
  · rintro ⟨rfl, none'⟩
    rw [List.drop_zero]
    exact keptText_whole none'

theorem collectThen_collectParts {α : Type} (parsePart : List UInt8 → Except MailimfError α) (last parts : List (List UInt8)) :
    collectThen parsePart (collectParts parsePart last) parts = collectParts parsePart (parts ++ last) := by
  induction parts with
  | nil => rfl
  | cons part parts ih =>
      cases read : parsePart part with
      | error reason => cases reason <;> simp only [List.cons_append, collectThen, collectParts, read]
      | ok parsed => simp only [List.cons_append, collectThen, collectParts, read, ih]

theorem cutKept_iff (stray : Nat → UInt8) (header : List UInt8) {boundary : List UInt8} (free : BreakFree boundary)
    {parts : List (List UInt8)} (ok : ∀ part ∈ parts, LayoutPart boundary part) {rest : List UInt8}
    (noDelimiter : hasDelimiterLine boundary rest = false) : CutKept stray header boundary parts rest ↔ PlainEnd rest := by
  have clean := (Bool.or_eq_false_iff.mp noDelimiter).2
  constructor
  · intro kept
    obtain ⟨count, within, isZero, result⟩ := mailmimeMultipartBodyParse_cutLayout .ok stray header free ok clean
    rw [HandsOver.slices kept, collectThen_ok, lastSlice] at result
    split at result
    · cases result
    · next more =>
        simp only [collectParts, Except.map, Except.ok.injEq, List.append_cancel_left_eq, List.cons.injEq, and_true] at result
        obtain ⟨zero, none'⟩ := (keptText_drop within more).mp result.symm
        rw [zero, List.drop_zero] at more
        exact ⟨keptText_whole none' ▸ more, isZero.mp zero, dashLine_none.mp none'⟩
  · intro plain α parsePart
    obtain ⟨count, within, isZero, result⟩ := mailmimeMultipartBodyParse_cutLayout parsePart stray header free ok clean
    have whole := keptText_whole (dashLine_none.mpr plain.noDash)
    rw [result, isZero.mpr plain.notBlank, List.drop_zero, lastSlice, whole, if_neg plain.more, collectThen_collectParts]

end Etpan.Mime
