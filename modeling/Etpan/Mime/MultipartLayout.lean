import Etpan.Mime.Multipart

namespace Etpan.Mime

open Etpan.Data Etpan.Imf

/-! What the splitter makes of a multipart body as `mailmime_part_write_driver` lays
it out. -/

def delimiter (boundary : List UInt8) : List UInt8 := ascii '-' :: ascii '-' :: boundary

theorem delimiter_breakFree {boundary : List UInt8} (free : BreakFree boundary) : BreakFree (delimiter boundary) :=
  (free.cons (by decide) (by decide)).cons (by decide) (by decide)

def partsLayout (boundary : List UInt8) : List (List UInt8) → List UInt8
  | [] => []
  | [part] => part ++ CR :: LF :: delimiter boundary ++ [ascii '-', ascii '-', CR, LF]
  | part :: parts => part ++ CR :: LF :: delimiter boundary ++ CR :: LF :: partsLayout boundary parts

def multipartLayout (boundary : List UInt8) (parts : List (List UInt8)) : List UInt8 :=
  delimiter boundary ++ CR :: LF :: partsLayout boundary parts

def delimiterAfterLF (boundary : List UInt8) : List UInt8 → Bool
  | [] => false
  | ch :: rest => (ch == LF && (delimiter boundary).isPrefixOf rest) || delimiterAfterLF boundary rest

def hasDelimiterLine (boundary text : List UInt8) : Bool :=
  (delimiter boundary).isPrefixOf text || delimiterAfterLF boundary text

/-- The first line of a part, with the line end the layout puts after the part, is
blank. -/
def blankFirstLine (part : List UInt8) : Bool :=
  match part.dropWhile isWsp with
  | [] => true
  | ch :: rest => ch == LF || (ch == CR && rest.head? == some LF)

theorem isPrefixOf_break {boundary text rest : List UInt8} (free : BreakFree boundary) {ch : UInt8}
    (isBreak : ch = CR ∨ ch = LF) :
    boundary.isPrefixOf (text ++ ch :: rest) = boundary.isPrefixOf text := by
  induction boundary generalizing text with
  | nil => simp
  | cons first boundary ih =>
      have this := free first (by simp)
      have tailFree : BreakFree boundary := fun byte member => free byte (by simp [member])
      cases text with
      | nil =>
          have different : first ≠ ch := by
            rintro rfl
            rcases isBreak with isCR | isLF
            · exact this.1 isCR
            · exact this.2 isLF
          simp [List.isPrefixOf, different]
      | cons byte text => simp [List.isPrefixOf, ih tailFree]

theorem boundaryHere_break {boundary text rest : List UInt8} (free : BreakFree boundary) {ch : UInt8}
    (isBreak : ch = CR ∨ ch = LF) :
    boundaryHere boundary (text ++ ch :: rest) = boundary.isPrefixOf text := by
  rw [boundaryHere, isPrefixOf_break free isBreak]
  cases here : boundary.isPrefixOf text with
  | false => simp
  | true =>
      have short := (List.isPrefixOf_iff_prefix.mp here).length_le
      simp
      omega

/-- What a state still has to see of a delimiter. -/
def awaited (boundary : List UInt8) : Dash2State → Option (List UInt8)
  | .s2 => some (delimiter boundary)
  | .s3 => some (ascii '-' :: boundary)
  | .s4 => some boundary
  | _ => none

def Unmatched (boundary : List UInt8) (state : Dash2State) (text : List UInt8) : Prop :=
  ∀ rest, awaited boundary state = some rest → rest.isPrefixOf text = false

theorem dash2Scan_step {boundary : List UInt8} {state : Dash2State} (notLast : state ≠ .s4) (ch : UInt8)
    (rest : List UInt8) (cur endText : Nat) :
    dash2Scan boundary state (ch :: rest) cur endText =
      dash2Scan boundary (dash2Step state ch) rest (cur + 1)
        (if state = .s2 ∧ ch = ascii '-' then cur else endText) := by
  cases state with
  | s4 => contradiction
  | s2 => by_cases dash : ch = ascii '-' <;> simp [dash2Scan, dash]
  | s0 => simp [dash2Scan]
  | s1 => simp [dash2Scan]
  | s3 => simp [dash2Scan]

theorem dash2Scan_mismatch {boundary : List UInt8} {ch : UInt8} {rest : List UInt8}
    (mismatch : boundaryHere boundary (ch :: rest) = false) (cur endText : Nat) :
    dash2Scan boundary .s4 (ch :: rest) cur endText =
      dash2Scan boundary (dash2Step .s0 ch) rest (cur + 1) endText := by
  simp [dash2Scan, mismatch]

theorem dash2Scan_match {boundary rest : List UInt8} (here : boundaryHere boundary rest = true)
    (cur endText : Nat) :
    dash2Scan boundary .s4 rest cur endText = (cur + boundary.length, endText) := by
  cases rest with
  | nil => simp [boundaryHere] at here
  | cons ch rest => simp [dash2Scan, here]

theorem Unmatched.step {boundary : List UInt8} {state : Dash2State} {ch : UInt8} {text : List UInt8}
    (afterLF : ch = LF → (delimiter boundary).isPrefixOf text = false)
    (unmatched : Unmatched boundary state (ch :: text)) : Unmatched boundary (dash2Step state ch) text := by
  have onLF : Unmatched boundary (if ch = LF then .s2 else .s0) text := by
    split
    · next isLF => simpa [Unmatched, awaited] using afterLF isLF
    · simp [Unmatched, awaited]
  have onBreak : Unmatched boundary (if ch = CR then .s1 else if ch = LF then .s2 else .s0) text := by
    split
    · simp [Unmatched, awaited]
    · exact onLF
  cases state with
  | s0 => exact onBreak
  | s1 => exact onLF
  | s2 =>
      simp only [dash2Step]
      split
      · next dash => simpa [Unmatched, awaited, delimiter, dash] using unmatched
      · exact onBreak
  | s3 =>
      simp only [dash2Step]
      by_cases dash : ch = ascii '-'
      · have noBreak : ch ≠ CR ∧ ch ≠ LF := by subst dash; decide
        rw [if_neg noBreak.1, if_neg noBreak.2, if_pos dash]
        simpa [Unmatched, awaited, dash] using unmatched
      · rw [if_neg dash]
        exact onBreak
  | s4 => simp [Unmatched, awaited, dash2Step]

theorem dash2Scan_lf {boundary : List UInt8} (free : BreakFree boundary) {after : List UInt8} (more : after ≠ [])
    {state : Dash2State} (unmatched : Unmatched boundary state []) (cur endText : Nat) :
    dash2Scan boundary state (LF :: (delimiter boundary ++ after)) cur endText =
      (cur + 3 + boundary.length, cur + 1) := by
  have here : boundaryHere boundary (boundary ++ after) = true := by
    simp [boundaryHere, List.length_pos_iff.mpr more]
  have onLF : dash2Scan boundary state (LF :: (delimiter boundary ++ after)) cur endText =
      dash2Scan boundary .s2 (delimiter boundary ++ after) (cur + 1) endText := by
    by_cases last : state = .s4
    · subst last
      have mismatch : boundaryHere boundary ([] ++ LF :: (delimiter boundary ++ after)) = false := by
        rw [boundaryHere_break free (.inr rfl)]
        exact unmatched boundary rfl
      exact dash2Scan_mismatch mismatch cur endText
    · have stepped : dash2Step state LF = .s2 := by
        cases state <;> first | contradiction | decide
      have notDash : LF ≠ ascii '-' := by decide
      rw [dash2Scan_step last, stepped, if_neg (fun both => notDash both.2)]
  have onDash : dash2Step .s2 (ascii '-') = .s3 ∧ dash2Step .s3 (ascii '-') = .s4 := by decide
  rw [onLF, delimiter, List.cons_append, List.cons_append, dash2Scan_step (by decide), onDash.1,
    if_pos ⟨rfl, rfl⟩, dash2Scan_step (by decide), onDash.2, if_neg (by decide), dash2Scan_match here]

theorem dash2Scan_delimiter {boundary : List UInt8} (free : BreakFree boundary) {after : List UInt8}
    (more : after ≠ []) (text : List UInt8) (state : Dash2State) (cur endText : Nat)
    (clean : delimiterAfterLF boundary text = false) (unmatched : Unmatched boundary state text) :
    dash2Scan boundary state (text ++ LF :: (delimiter boundary ++ after)) cur endText =
      (cur + text.length + 3 + boundary.length, cur + text.length + 1) := by
  induction text generalizing state cur endText with
  | nil =>
      rw [List.nil_append, dash2Scan_lf free more unmatched]
      simp
  | cons ch text ih =>
      have cleanTail : delimiterAfterLF boundary text = false := by
        simp only [delimiterAfterLF, Bool.or_eq_false_iff] at clean
        exact clean.2
      have afterLF : ch = LF → (delimiter boundary).isPrefixOf text = false := by
        rintro rfl
        simpa [delimiterAfterLF] using (Bool.or_eq_false_iff.mp clean).1
      have reached : ∀ state', Unmatched boundary state' text → ∀ endText,
          dash2Scan boundary state' (text ++ LF :: (delimiter boundary ++ after)) (cur + 1) endText =
            (cur + (ch :: text).length + 3 + boundary.length, cur + (ch :: text).length + 1) := by
        intro state' unmatched' endText
        rw [ih state' (cur + 1) endText cleanTail unmatched', List.length_cons, Prod.mk.injEq]
        constructor <;> omega
      rw [List.cons_append]
      by_cases last : state = .s4
      · subst last
        have mismatch : boundaryHere boundary (ch :: (text ++ LF :: (delimiter boundary ++ after))) = false := by
          rw [← List.cons_append, boundaryHere_break free (.inr rfl)]
          exact unmatched boundary rfl
        rw [dash2Scan_mismatch mismatch]
        exact reached _ (Unmatched.step afterLF (by simp [Unmatched, awaited])) _
      · rw [dash2Scan_step last]
        exact reached _ (Unmatched.step afterLF unmatched) _

def lineEndTrimmed (text : List UInt8) : Nat :=
  if text.getLast? = some CR then text.length - 1 else text.length

theorem getElem?_of_drop {message text : List UInt8} {cur : Nat} (spelled : message.drop cur = text) (offset : Nat) :
    message[cur + offset]? = text[offset]? := by
  rw [← spelled, List.getElem?_drop]

theorem trimEol_lf {message text rest : List UInt8} {cur : Nat} (spelled : message.drop cur = text ++ LF :: rest) :
    trimEol message cur (cur + text.length + 1) = cur + lineEndTrimmed text := by
  have last : message[cur + text.length]? = some LF := by
    rw [getElem?_of_drop spelled]
    simp
  have notCR : ¬ message[cur + text.length + 1 - 1]? = some CR := by
    rw [Nat.add_sub_cancel, last]
    decide
  rw [trimEol, if_neg (by omega), if_neg notCR, Nat.add_sub_cancel, if_pos last, lineEndTrimmed]
  rcases List.eq_nil_or_concat text with rfl | ⟨front, ch, rfl⟩
  · simp
  · have before : message[cur + (front.concat ch).length + 1 - 2]? = some ch := by
      have offset : cur + (front.concat ch).length + 1 - 2 = cur + front.length := by simp
      rw [offset, getElem?_of_drop spelled]
      simp
    have long : ¬ cur + (front.concat ch).length ≤ cur := by simp
    rw [if_neg long, before]
    by_cases isCR : ch = CR
    · simp [isCR]
    · simp [isCR]

theorem mailmimeBodyPartDash2Parse_delimiter {message boundary text after : List UInt8} {cur : Nat}
    (free : BreakFree boundary) (more : after ≠ []) (clean : delimiterAfterLF boundary text = false)
    (spelled : message.drop cur = text ++ LF :: (delimiter boundary ++ after))
    (nonempty : 0 < lineEndTrimmed text) :
    mailmimeBodyPartDash2Parse message boundary cur =
      .ok (cur + text.length + 3 + boundary.length, cur + lineEndTrimmed text) := by
  have scanned := dash2Scan_delimiter free more text .s0 cur message.length clean (by simp [Unmatched, awaited])
  have positive : ¬ cur + lineEndTrimmed text - cur = 0 := by omega
  simp only [mailmimeBodyPartDash2Parse, spelled, scanned, trimEol_lf spelled, if_neg positive]

theorem drop_delimiter {message boundary text after : List UInt8} {cur : Nat}
    (spelled : message.drop cur = text ++ LF :: (delimiter boundary ++ after)) :
    message.drop (cur + text.length + 3 + boundary.length) = after := by
  have offset : cur + text.length + 3 + boundary.length = cur + (text ++ LF :: delimiter boundary).length := by
    simp [delimiter]
    omega
  have joined : text ++ LF :: (delimiter boundary ++ after) = (text ++ LF :: delimiter boundary) ++ after := by simp
  rw [offset, ← List.drop_drop, spelled, joined, List.drop_left]

theorem blankLine_eq (text : List UInt8) :
    blankLine text =
      match text.dropWhile isWsp with
      | [] => none
      | ch :: rest =>
          if ch = CR then if rest.head? = some LF then some ((text.takeWhile isWsp).length + 2) else none
          else if ch = LF then some ((text.takeWhile isWsp).length + 1)
          else none := by
  induction text with
  | nil => rfl
  | cons ch text ih =>
      by_cases padding : isWsp ch = true
      · simp only [blankLine, padding, if_true, ih, List.dropWhile_cons_of_pos padding,
          List.takeWhile_cons_of_pos padding]
        split
        · rfl
        · split
          · split
            · simp
            · rfl
          · split
            · simp
            · rfl
      · simp only [blankLine, padding, List.dropWhile_cons_of_neg padding, List.takeWhile_cons_of_neg padding]
        simp

theorem blankLine_ends {text : List UInt8} {count : Nat} (blank : blankLine text = some count) :
    ∃ before rest, text = before ++ LF :: rest ∧ count = before.length + 1 := by
  induction text generalizing count with
  | nil => simp [blankLine] at blank
  | cons ch text ih =>
      rw [blankLine] at blank
      split at blank
      · obtain ⟨shorter, found, rfl⟩ := Option.map_eq_some_iff.mp blank
        obtain ⟨before, rest, rfl, rfl⟩ := ih found
        exact ⟨ch :: before, rest, rfl, rfl⟩
      split at blank
      · split at blank
        · next paired =>
            obtain ⟨rest, rfl⟩ := List.head?_eq_some_iff.mp paired
            have two : count = 2 := by simpa [eq_comm] using blank
            exact ⟨[ch], rest, rfl, two⟩
        · contradiction
      split at blank
      · next isLF =>
          have one : count = 1 := by simpa [eq_comm] using blank
          exact ⟨[], text, by rw [isLF]; rfl, one⟩
      · contradiction

theorem skipLwsp_eq (message : List UInt8) (indx : Nat) :
    skipLwsp message indx = indx + ((message.drop indx).takeWhile isWsp).length := by
  rw [skipLwsp, mailmimeLwspParse]
  by_cases none : ((message.drop indx).takeWhile isWsp).length = 0
  · simp [none]
  · simp [none]

theorem drop_skipLwsp (message : List UInt8) (indx : Nat) :
    message.drop (skipLwsp message indx) = (message.drop indx).dropWhile isWsp := by
  rw [skipLwsp_eq, ← List.drop_drop]
  generalize message.drop indx = text
  nth_rewrite 2 [← List.takeWhile_append_dropWhile (p := isWsp) (l := text)]
  rw [List.drop_left]

theorem mailimfCrlfParse_skipLwsp (message : List UInt8) (indx : Nat) :
    mailimfCrlfParse message (skipLwsp message indx) = mailmimeMultipartNextParse message indx := by
  rw [mailimfCrlfParse, drop_skipLwsp, mailmimeMultipartNextParse, blankLine_eq, skipLwsp_eq]
  cases (message.drop indx).dropWhile isWsp with
  | nil => rfl
  | cons ch rest =>
      by_cases isCR : ch = CR
      · by_cases paired : rest.head? = some LF
        · simp [isCR, paired, Nat.add_assoc]
        · simp [isCR, paired]
      · by_cases isLF : ch = LF
        · simp [isLF, Nat.add_assoc]
        · simp [isCR, isLF]

theorem blankLine_crlf (rest : List UInt8) : blankLine (CR :: LF :: rest) = some 2 := by
  have notWsp : isWsp CR = false := by decide
  simp [blankLine, notWsp]

theorem blankLine_part {part : List UInt8} (notBlank : blankFirstLine part = false) (rest : List UInt8) :
    blankLine (part ++ CR :: LF :: rest) = none := by
  rw [blankFirstLine] at notBlank
  rw [blankLine_eq, List.dropWhile_append]
  cases content : part.dropWhile isWsp with
  | nil => simp [content] at notBlank
  | cons ch tail =>
      simp only [content, Bool.or_eq_false_iff, beq_eq_false_iff_ne, Bool.and_eq_false_iff] at notBlank
      obtain ⟨notLF, notCRLF⟩ := notBlank
      by_cases isCR : ch = CR
      · have unpaired : ¬ (tail ++ CR :: LF :: rest).head? = some LF := by
          rcases notCRLF with notCR | notPair
          · exact absurd isCR notCR
          · cases tail with
            | nil => simp
            | cons next tail => simpa using notPair
        simp only [List.isEmpty_cons, Bool.false_eq_true, if_false, List.cons_append, if_pos isCR, if_neg unpaired]
      · simp [isCR, notLF]

def seen : Dash2State → List UInt8
  | .s2 => [LF]
  | .s3 => [LF, ascii '-']
  | .s4 => [LF, ascii '-', ascii '-']
  | _ => []

theorem seen_step (state : Dash2State) (ch : UInt8) :
    ∃ passed, seen state ++ [ch] = passed ++ seen (dash2Step state ch) := by
  cases state with
  | s0 =>
      simp only [dash2Step]
      split
      · exact ⟨[ch], by simp [seen]⟩
      · split
        · next isLF => exact ⟨[], by simp [seen, isLF]⟩
        · exact ⟨[ch], by simp [seen]⟩
  | s1 =>
      simp only [dash2Step]
      split
      · next isLF => exact ⟨[], by simp [seen, isLF]⟩
      · exact ⟨[ch], by simp [seen]⟩
  | s2 =>
      simp only [dash2Step]
      split
      · next dash => exact ⟨[], by simp [seen, dash]⟩
      · split
        · exact ⟨[LF, ch], by simp [seen]⟩
        · split
          · next isLF => exact ⟨[LF], by simp [seen, isLF]⟩
          · exact ⟨[LF, ch], by simp [seen]⟩
  | s3 =>
      simp only [dash2Step]
      split
      · exact ⟨[LF, ascii '-', ch], by simp [seen]⟩
      · split
        · next isLF => exact ⟨[LF, ascii '-'], by simp [seen, isLF]⟩
        · split
          · next dash => exact ⟨[], by simp [seen, dash]⟩
          · exact ⟨[LF, ascii '-', ch], by simp [seen]⟩
  | s4 => exact ⟨[LF, ascii '-', ascii '-', ch], by simp [seen, dash2Step]⟩

theorem dash2Scan_sound (boundary text : List UInt8) (state : Dash2State) (cur endText : Nat) :
    (dash2Scan boundary state text cur endText).1 = cur + text.length ∨
    ∃ before after, seen state ++ text = before ++ LF :: (delimiter boundary ++ after) ∧ after ≠ [] ∧
      (dash2Scan boundary state text cur endText).1 + after.length = cur + text.length := by
  induction text generalizing state cur endText with
  | nil => exact .inl (by simp [dash2Scan])
  | cons ch text ih =>
      -- both results go from the next state to this one
      have back : ∀ state' passed endText, seen state ++ [ch] = passed ++ seen state' →
          (dash2Scan boundary state' text (cur + 1) endText).1 = cur + (ch :: text).length ∨
          ∃ before after, seen state ++ ch :: text = before ++ LF :: (delimiter boundary ++ after) ∧ after ≠ [] ∧
            (dash2Scan boundary state' text (cur + 1) endText).1 + after.length = cur + (ch :: text).length := by
        intro state' passed endText split
        rcases ih state' (cur + 1) endText with atEnd | ⟨before, after, spelled, more, position⟩
        · left
          rw [atEnd, List.length_cons]
          omega
        · right
          refine ⟨passed ++ before, after, ?_, more, ?_⟩
          · calc seen state ++ ch :: text = (seen state ++ [ch]) ++ text := by simp
              _ = passed ++ (seen state' ++ text) := by rw [split, List.append_assoc]
              _ = passed ++ before ++ LF :: (delimiter boundary ++ after) := by rw [spelled, List.append_assoc]
          · rw [position, List.length_cons]
            omega
      by_cases last : state = .s4
      · subst last
        cases here : boundaryHere boundary (ch :: text) with
        | true =>
            right
            rw [dash2Scan_match here]
            simp only [boundaryHere, Bool.and_eq_true, decide_eq_true_eq, List.isPrefixOf_iff_prefix] at here
            obtain ⟨longer, after, rest⟩ := here
            have lengths := congrArg List.length rest
            rw [List.length_append] at lengths
            refine ⟨[], after, by simp [seen, delimiter, rest], ?_, ?_⟩
            · rintro rfl
              rw [List.length_nil] at lengths
              omega
            · simp only
              omega
        | false =>
            rw [dash2Scan_mismatch here]
            obtain ⟨passed, split⟩ := seen_step .s0 ch
            exact back _ ([LF, ascii '-', ascii '-'] ++ passed) _ (by rw [List.append_assoc, ← split]; simp [seen])
      · rw [dash2Scan_step last]
        obtain ⟨passed, split⟩ := seen_step state ch
        exact back _ passed _ split

theorem mailmimeBodyPartDash2Parse_sound (message boundary : List UInt8) (cur : Nat) :
    mailmimeBodyPartDash2Parse message boundary cur = .error .parse ∨
    ∃ next endText, mailmimeBodyPartDash2Parse message boundary cur = .ok (next, endText) ∧
      (message.drop next = [] ∨
        ∃ before after, message.drop cur = before ++ LF :: (delimiter boundary ++ after) ∧
          message.drop next = after) := by
  rw [mailmimeBodyPartDash2Parse]
  split
  · exact .inl rfl
  · right
    refine ⟨_, _, rfl, ?_⟩
    rcases dash2Scan_sound boundary (message.drop cur) .s0 cur message.length with
      atEnd | ⟨before, after, spelled, -, position⟩
    · left
      rw [atEnd, ← List.drop_drop, List.drop_length]
    · right
      simp only [seen, List.nil_append] at spelled
      refine ⟨before, after, spelled, ?_⟩
      rw [← drop_delimiter spelled]
      congr 1
      have total : (message.drop cur).length = before.length + 3 + boundary.length + after.length := by
        rw [spelled]
        simp [delimiter]
        omega
      rw [total] at position
      omega

def plainHere (boundary rest : List UInt8) : Bool :=
  (delimiter boundary).isPrefixOf rest && (blankLine (rest.drop (delimiter boundary).length)).isSome

def plainAfterLF (boundary : List UInt8) : List UInt8 → Bool
  | [] => false
  | ch :: rest => (ch == LF && plainHere boundary rest) || plainAfterLF boundary rest

theorem plainAfterLF_of_suffix {boundary before rest : List UInt8}
    (clean : plainAfterLF boundary (before ++ rest) = false) : plainAfterLF boundary rest = false := by
  induction before with
  | nil => exact clean
  | cons ch before ih =>
      rw [List.cons_append, plainAfterLF, Bool.or_eq_false_iff] at clean
      exact ih clean.2

theorem blankLine_of_plainAfterLF {boundary before after : List UInt8}
    (clean : plainAfterLF boundary (before ++ LF :: (delimiter boundary ++ after)) = false) :
    blankLine after = none := by
  have here := plainAfterLF_of_suffix clean
  simpa [plainAfterLF, plainHere] using (Bool.or_eq_false_iff.mp here).1

theorem transportCrlfLoop_none {message boundary : List UInt8} (turns cur : Nat)
    (clean : plainAfterLF boundary (message.drop cur) = false) :
    transportCrlfLoop message boundary turns cur = .error .parse := by
  induction turns generalizing cur with
  | zero => rfl
  | succ turns ih =>
      rw [transportCrlfLoop]
      rcases mailmimeBodyPartDash2Parse_sound message boundary cur with failed | ⟨next, endText, found, stopped⟩
      · rw [failed]
      · have notBlank : blankLine (message.drop next) = none ∧ plainAfterLF boundary (message.drop next) = false := by
          rcases stopped with atEnd | ⟨before, after, spelled, rest⟩
          · rw [atEnd]
            exact ⟨rfl, rfl⟩
          · rw [spelled] at clean
            rw [rest]
            have suffix : before ++ LF :: (delimiter boundary ++ after) =
                (before ++ LF :: delimiter boundary) ++ after := by simp
            exact ⟨blankLine_of_plainAfterLF clean, plainAfterLF_of_suffix (suffix ▸ clean)⟩
        have restClean : plainAfterLF boundary (message.drop (skipLwsp message next)) = false := by
          have whole := notBlank.2
          rw [← List.takeWhile_append_dropWhile (p := isWsp) (l := message.drop next)] at whole
          rw [drop_skipLwsp]
          exact plainAfterLF_of_suffix whole
        simp only [found, mailimfCrlfParse_skipLwsp, mailmimeMultipartNextParse, notBlank.1]
        exact ih _ restClean

theorem transportCrlfLoop_plain {message boundary text after : List UInt8} {cur count : Nat} (turns : Nat)
    (free : BreakFree boundary) (clean : delimiterAfterLF boundary text = false)
    (spelled : message.drop cur = text ++ LF :: (delimiter boundary ++ after))
    (nonempty : 0 < lineEndTrimmed text) (blank : blankLine after = some count) :
    transportCrlfLoop message boundary (turns + 1) cur =
      .ok (cur + text.length + 3 + boundary.length + count, cur + lineEndTrimmed text) := by
  have more : after ≠ [] := by
    rintro rfl
    simp [blankLine] at blank
  simp only [transportCrlfLoop, mailmimeBodyPartDash2Parse_delimiter free more clean spelled nonempty,
    mailimfCrlfParse_skipLwsp, mailmimeMultipartNextParse, drop_delimiter spelled, blank]

theorem plainAfterLF_append_of_clean {boundary text rest : List UInt8} (free : BreakFree boundary)
    (clean : delimiterAfterLF boundary text = false) {ch : UInt8} (isBreak : ch = CR ∨ ch = LF) :
    plainAfterLF boundary (text ++ ch :: rest) = plainAfterLF boundary (ch :: rest) := by
  induction text with
  | nil => rfl
  | cons first text ih =>
      simp only [delimiterAfterLF, Bool.or_eq_false_iff, Bool.and_eq_false_iff] at clean
      have notHere : (first == LF && plainHere boundary (text ++ ch :: rest)) = false := by
        rw [Bool.and_eq_false_iff, plainHere, isPrefixOf_break (delimiter_breakFree free) isBreak]
        rcases clean.1 with notLF | noDelimiter
        · exact .inl notLF
        · exact .inr (by rw [noDelimiter, Bool.false_and])
      rw [List.cons_append, plainAfterLF, notHere, Bool.false_or]
      exact ih clean.2

theorem plainAfterLF_breakFree {boundary line rest : List UInt8} (free : BreakFree line) :
    plainAfterLF boundary (line ++ rest) = plainAfterLF boundary rest := by
  induction line with
  | nil => rfl
  | cons ch line ih =>
      have notLF := (free ch (by simp)).2
      have tailFree : BreakFree line := fun byte member => free byte (by simp [member])
      simp [plainAfterLF, notLF, ih tailFree]

theorem plainAfterLF_close {boundary text extra : List UInt8} (free : BreakFree boundary)
    (clean : delimiterAfterLF boundary text = false) :
    plainAfterLF boundary (text ++ CR :: LF :: (delimiter boundary ++ ascii '-' :: ascii '-' :: CR :: LF :: extra)) =
      plainAfterLF boundary (LF :: extra) := by
  have closeFree : BreakFree (delimiter boundary ++ [ascii '-', ascii '-']) := by
    intro byte member
    rcases List.mem_append.mp member with inside | dash
    · exact delimiter_breakFree free byte inside
    · have isDash : byte = ascii '-' := by simpa using dash
      subst isDash
      decide
  have notWsp : isWsp (ascii '-') = false := by decide
  have notPlain : plainHere boundary (delimiter boundary ++ ascii '-' :: ascii '-' :: CR :: LF :: extra) = false := by
    have notBreak : ascii '-' ≠ CR ∧ ascii '-' ≠ LF := by decide
    simp [plainHere, blankLine, notWsp, notBreak]
  have joined : delimiter boundary ++ ascii '-' :: ascii '-' :: CR :: LF :: extra =
      (delimiter boundary ++ [ascii '-', ascii '-']) ++ CR :: LF :: extra := by simp
  rw [plainAfterLF_append_of_clean free clean (.inl rfl)]
  calc plainAfterLF boundary (CR :: LF :: (delimiter boundary ++ ascii '-' :: ascii '-' :: CR :: LF :: extra))
      = plainAfterLF boundary (delimiter boundary ++ ascii '-' :: ascii '-' :: CR :: LF :: extra) := by
        simp [plainAfterLF, notPlain]
    _ = plainAfterLF boundary (CR :: LF :: extra) := by rw [joined, plainAfterLF_breakFree closeFree]
    _ = plainAfterLF boundary (LF :: extra) := by simp [plainAfterLF]

theorem lineEndTrimmed_cr (text : List UInt8) : lineEndTrimmed (text ++ [CR]) = text.length := by
  simp [lineEndTrimmed]

theorem delimiterAfterLF_cr {boundary text : List UInt8} (free : BreakFree boundary)
    (clean : delimiterAfterLF boundary text = false) : delimiterAfterLF boundary (text ++ [CR]) = false := by
  induction text with
  | nil => simp [delimiterAfterLF]
  | cons ch text ih =>
      simp only [delimiterAfterLF, Bool.or_eq_false_iff] at clean
      rw [List.cons_append, delimiterAfterLF, isPrefixOf_break (delimiter_breakFree free) (.inl rfl), clean.1, ih clean.2,
        Bool.false_or]

theorem exists_of_map_ok {α β : Type} {outcome : Except MailimfError α} {step : α → β} {value : β}
    (mapped : outcome.map step = .ok value) : ∃ result, outcome = .ok result ∧ step result = value := by
  cases outcome with
  | error reason => simp [Except.map] at mapped
  | ok result => exact ⟨result, rfl, by simpa [Except.map] using mapped⟩

section Layout

variable {α : Type} {parsePart : List UInt8 → Except MailimfError α} {message boundary part : List UInt8} {cur : Nat}

structure LayoutPart (boundary part : List UInt8) : Prop where
  nonempty : part ≠ []
  noDelimiter : hasDelimiterLine boundary part = false
  notBlank : blankFirstLine part = false

theorem LayoutPart.clean (ok : LayoutPart boundary part) : delimiterAfterLF boundary part = false :=
  (Bool.or_eq_false_iff.mp ok.noDelimiter).2

theorem mailmimeBodyPartDash2Parse_part (free : BreakFree boundary) (nonempty : part ≠ [])
    (clean : delimiterAfterLF boundary part = false) {after : List UInt8} (more : after ≠ [])
    (spelled : message.drop cur = part ++ CR :: LF :: (delimiter boundary ++ after)) :
    mailmimeBodyPartDash2Parse message boundary cur =
      .ok (cur + part.length + 4 + boundary.length, cur + part.length) := by
  have withCR : message.drop cur = (part ++ [CR]) ++ LF :: (delimiter boundary ++ after) := by simpa using spelled
  have found := mailmimeBodyPartDash2Parse_delimiter free more (delimiterAfterLF_cr free clean) withCR
    (by rw [lineEndTrimmed_cr]; exact List.length_pos_iff.mpr nonempty)
  have offset : cur + (part.length + 1) + 3 + boundary.length = cur + part.length + 4 + boundary.length := by omega
  rw [found, lineEndTrimmed_cr, List.length_append, List.length_singleton, offset]

theorem drop_part {after : List UInt8} (spelled : message.drop cur = part ++ CR :: LF :: (delimiter boundary ++ after)) :
    message.drop (cur + part.length + 4 + boundary.length) = after := by
  have withCR : message.drop cur = (part ++ [CR]) ++ LF :: (delimiter boundary ++ after) := by simpa using spelled
  have offset : cur + (part.length + 1) + 3 + boundary.length = cur + part.length + 4 + boundary.length := by omega
  rw [← drop_delimiter withCR, List.length_append, List.length_singleton, offset]

theorem drop_plain {rest : List UInt8}
    (spelled : message.drop cur = part ++ CR :: LF :: (delimiter boundary ++ CR :: LF :: rest)) :
    message.drop (cur + part.length + 6 + boundary.length) = rest := by
  have offset : cur + part.length + 6 + boundary.length = cur + part.length + 4 + boundary.length + 2 := by omega
  rw [offset, ← List.drop_drop, drop_part spelled]
  rfl

theorem take_part {after : List UInt8} (spelled : message.drop cur = part ++ after) :
    (message.drop cur).take (cur + part.length - cur) = part := by
  rw [spelled, Nat.add_sub_cancel_left, List.take_left]

theorem partLoop_turn (free : BreakFree boundary) (nonempty : part ≠ []) (clean : delimiterAfterLF boundary part = false)
    {rest : List UInt8} (spelled : message.drop cur = part ++ CR :: LF :: (delimiter boundary ++ CR :: LF :: rest)) (turns : Nat) :
    partLoop parsePart message boundary (turns + 1) cur =
      match parsePart part with
      | .error .parse => .ok ([], cur + part.length + 6 + boundary.length)
      | .error reason => .error reason
      | .ok parsed =>
          (partLoop parsePart message boundary turns (cur + part.length + 6 + boundary.length + (blankLine rest).getD 0)).map
            fun rest => (parsed :: rest.1, rest.2) := by
  have transport : mailmimeBodyPartDash2TransportCrlfParse message boundary cur =
      .ok (cur + part.length + 6 + boundary.length, cur + part.length) := by
    rw [mailmimeBodyPartDash2TransportCrlfParse, transportCrlfLoop]
    simp only [mailmimeBodyPartDash2Parse_part free nonempty clean (by simp) spelled, mailimfCrlfParse_skipLwsp,
      mailmimeMultipartNextParse, drop_part spelled, blankLine_crlf]
    congr 2
    omega
  rw [partLoop]
  simp only [transport, take_part spelled, mailmimeMultipartNextParse, drop_plain spelled]
  cases parsePart part with
  | error reason => cases reason <;> rfl
  | ok parsed => cases blankLine rest <;> rfl

theorem partLoop_inner (free : BreakFree boundary) (ok : LayoutPart boundary part) {rest : List UInt8}
    (spelled : message.drop cur = part ++ CR :: LF :: (delimiter boundary ++ CR :: LF :: rest))
    (notBlank : blankLine rest = none) (turns : Nat) :
    partLoop parsePart message boundary (turns + 1) cur =
      match parsePart part with
      | .error .parse => .ok ([], cur + part.length + 6 + boundary.length)
      | .error reason => .error reason
      | .ok parsed =>
          (partLoop parsePart message boundary turns (cur + part.length + 6 + boundary.length)).map
            fun rest => (parsed :: rest.1, rest.2) := by
  rw [partLoop_turn free ok.nonempty ok.clean spelled, notBlank]
  rfl

theorem mailmimeMultipartCloseParse_close {extra : List UInt8} {indx : Nat}
    (spelled : message.drop indx = ascii '-' :: ascii '-' :: CR :: LF :: extra) :
    mailmimeMultipartCloseParse message indx = .ok (indx + 4) := by
  have notWsp : isWsp CR = false := by decide
  simp [mailmimeMultipartCloseParse, spelled, closePadding, notWsp]

theorem partLoop_last (free : BreakFree boundary) (nonempty : part ≠ []) (clean : delimiterAfterLF boundary part = false)
    {extra : List UInt8} (spelled : message.drop cur =
      part ++ CR :: LF :: (delimiter boundary ++ ascii '-' :: ascii '-' :: CR :: LF :: extra))
    (inert : plainAfterLF boundary (LF :: extra) = false) (turns : Nat) :
    partLoop parsePart message boundary (turns + 1) cur =
      match parsePart part with
      | .error .parse => .ok ([], cur + part.length + 8 + boundary.length)
      | .error reason => .error reason
      | .ok parsed => .ok ([parsed], cur + part.length + 8 + boundary.length + (blankLine extra).getD 0) := by
  have transport : mailmimeBodyPartDash2TransportCrlfParse message boundary cur = .error .parse :=
    transportCrlfLoop_none _ cur (by rw [spelled, plainAfterLF_close free clean, inert])
  have rest := drop_part spelled
  have inside : ¬ message.length ≤ cur + part.length + 4 + boundary.length := by
    intro outside
    rw [List.drop_eq_nil_of_le outside] at rest
    contradiction
  have close : mailmimeBodyPartDash2CloseParse message boundary cur =
      .ok (cur + part.length + 8 + boundary.length, cur + part.length) := by
    have offset : cur + part.length + 4 + boundary.length + 4 = cur + part.length + 8 + boundary.length := by omega
    simp only [mailmimeBodyPartDash2CloseParse, closeLoop, mailmimeBodyPartDash2Parse_part free nonempty clean (by simp) spelled,
      if_neg inside, mailmimeMultipartCloseParse_close rest, offset]
  have dropped : message.drop (cur + part.length + 8 + boundary.length) = extra := by
    have offset : cur + part.length + 8 + boundary.length = cur + part.length + 4 + boundary.length + 4 := by omega
    rw [offset, ← List.drop_drop, rest]
    rfl
  rw [partLoop]
  simp only [transport, close, take_part spelled, mailmimeMultipartNextParse, dropped, if_true]
  cases parsePart part with
  | error reason => cases reason <;> rfl
  | ok parsed => cases blankLine extra <;> rfl

/-- What the part loop keeps of the slices it hands to the part parser: the loop ends
at the first one that is not parsable. -/
def collectParts (parsePart : List UInt8 → Except MailimfError α) : List (List UInt8) → Except MailimfError (List α)
  | [] => .ok []
  | part :: parts =>
      match parsePart part with
      | .error .parse => .ok []
      | .error reason => .error reason
      | .ok parsed => (collectParts parsePart parts).map (parsed :: ·)

theorem partsLayout_cons (boundary part next : List UInt8) (parts : List (List UInt8)) :
    partsLayout boundary (part :: next :: parts) =
      part ++ CR :: LF :: (delimiter boundary ++ CR :: LF :: partsLayout boundary (next :: parts)) := by
  simp [partsLayout]

theorem partsLayout_notBlank {parts : List (List UInt8)} (nonempty : parts ≠ [])
    (ok : ∀ part ∈ parts, LayoutPart boundary part) (extra : List UInt8) :
    blankLine (partsLayout boundary parts ++ extra) = none := by
  cases parts with
  | nil => contradiction
  | cons part parts =>
      have notBlank := (ok part (by simp)).notBlank
      cases parts with
      | nil => simpa [partsLayout] using blankLine_part notBlank _
      | cons next parts => simpa [partsLayout_cons] using blankLine_part notBlank _

theorem partLoop_partsLayout (free : BreakFree boundary) {parts : List (List UInt8)} (nonempty : parts ≠ [])
    (ok : ∀ part ∈ parts, LayoutPart boundary part) {extra : List UInt8}
    (spelled : message.drop cur = partsLayout boundary parts ++ extra)
    (inert : plainAfterLF boundary (LF :: extra) = false) {turns : Nat} (enough : parts.length ≤ turns) :
    (partLoop parsePart message boundary turns cur).map Prod.fst = collectParts parsePart parts := by
  induction parts generalizing cur turns with
  | nil => contradiction
  | cons part parts ih =>
      have this := ok part (by simp)
      have others : ∀ other ∈ parts, LayoutPart boundary other := fun other member => ok other (by simp [member])
      rw [List.length_cons] at enough
      obtain ⟨turns, rfl⟩ : ∃ fewer, turns = fewer + 1 := ⟨turns - 1, by omega⟩
      cases parts with
      | nil =>
          have atClose : message.drop cur =
              part ++ CR :: LF :: (delimiter boundary ++ ascii '-' :: ascii '-' :: CR :: LF :: extra) := by
            simpa [partsLayout] using spelled
          rw [partLoop_last free this.nonempty this.clean atClose inert, collectParts, collectParts]
          cases parsePart part with
          | error reason => cases reason <;> rfl
          | ok parsed => rfl
      | cons next parts =>
          have atPlain : message.drop cur = part ++ CR :: LF ::
              (delimiter boundary ++ CR :: LF :: (partsLayout boundary (next :: parts) ++ extra)) := by
            simpa [partsLayout_cons] using spelled
          have fewer : (next :: parts).length ≤ turns := by omega
          have rest := ih (by simp) others (drop_plain atPlain) fewer
          rw [partLoop_inner free this atPlain (partsLayout_notBlank (by simp) others extra), collectParts, ← rest]
          cases parsePart part with
          | error reason => cases reason <;> rfl
          | ok parsed =>
              cases partLoop parsePart message boundary turns (cur + part.length + 6 + boundary.length) <;> rfl

theorem skipBlankLines_layout {parts : List (List UInt8)} (nonempty : parts ≠ [])
    (ok : ∀ part ∈ parts, LayoutPart boundary part) {extra : List UInt8}
    (spelled : message.drop cur = CR :: LF :: (partsLayout boundary parts ++ extra)) :
    skipBlankLines message (message.length + 1) cur = cur + 2 := by
  have dropped : message.drop (cur + 2) = partsLayout boundary parts ++ extra := by
    rw [← List.drop_drop, spelled]
    rfl
  have turns : ∃ fewer, message.length + 1 = fewer + 2 := by
    cases size : message with
    | nil => simp [size] at spelled
    | cons ch rest => exact ⟨rest.length, by simp⟩
  obtain ⟨fewer, turns⟩ := turns
  rw [turns]
  simp only [skipBlankLines, mailimfCrlfParse_skipLwsp, mailmimeMultipartNextParse, spelled, blankLine_crlf, dropped,
    partsLayout_notBlank nonempty ok extra]

variable (boundary) in
theorem partsLayout_length (parts : List (List UInt8)) :
    parts.length ≤ (partsLayout boundary parts).length := by
  induction parts with
  | nil => simp
  | cons part parts ih =>
      cases parts with
      | nil =>
          simp [partsLayout]
          omega
      | cons next parts =>
          rw [partsLayout_cons]
          simp only [List.length_cons, List.length_append] at ih ⊢
          omega

variable (parsePart) in
theorem partLoop_opened (free : BreakFree boundary) {parts : List (List UInt8)} (nonempty : parts ≠ [])
    (ok : ∀ part ∈ parts, LayoutPart boundary part) {extra : List UInt8}
    (spelled : message.drop cur = CR :: LF :: (partsLayout boundary parts ++ extra))
    (inert : plainAfterLF boundary (LF :: extra) = false) :
    (partLoop parsePart message boundary (message.length + 1)
      (skipBlankLines message (message.length + 1) cur)).map Prod.fst = collectParts parsePart parts := by
  have dropped : message.drop (cur + 2) = partsLayout boundary parts ++ extra := by
    rw [← List.drop_drop, spelled]
    rfl
  have enough : parts.length ≤ message.length + 1 := by
    have lengths := congrArg List.length spelled
    have counted := partsLayout_length boundary parts
    simp only [List.length_drop, List.length_cons, List.length_append] at lengths
    omega
  rw [skipBlankLines_layout nonempty ok spelled]
  exact partLoop_partsLayout free nonempty ok dropped inert enough

theorem preambleLoop_delimiter {indx : Nat} {after : List UInt8} (more : after ≠ [])
    (spelled : message.drop indx = delimiter boundary ++ after) :
    mailmimePreambleParse message indx true = .ok (indx + 2) ∧
      preambleLoop message boundary (message.length + 1) (indx + 2) = (indx + 2 + boundary.length, indx + 2) := by
  have dashes : preambleStep .a0 (ascii '-') = .a1 ∧ preambleStep .a1 (ascii '-') = .e := by decide
  have dropped : message.drop (indx + 2) = boundary ++ after := by
    rw [← List.drop_drop, spelled]
    rfl
  constructor
  · simp [mailmimePreambleParse, spelled, delimiter, preambleScan, dashes]
  · simp [preambleLoop, mailmimeBoundaryParse, boundaryHere, dropped, List.length_pos_iff.mpr more]

variable (parsePart) in
theorem mailmimeMultipartBodyParse_collect (stray : Nat → UInt8) (header : List UInt8) (free : BreakFree boundary)
    {parts : List (List UInt8)} (nonempty : parts ≠ []) (ok : ∀ part ∈ parts, LayoutPart boundary part) :
    (mailmimeMultipartBodyParse parsePart stray (header ++ multipartLayout boundary parts) boundary
      header.length).map MultipartBody.parts = collectParts parsePart parts := by
  have spelled : (header ++ multipartLayout boundary parts).drop header.length =
      delimiter boundary ++ CR :: LF :: partsLayout boundary parts := List.drop_left
  have restSpelled : (header ++ multipartLayout boundary parts).drop (header.length + 2 + boundary.length) =
      CR :: LF :: (partsLayout boundary parts ++ []) := by
    have offset : header.length + 2 + boundary.length = header.length + (delimiter boundary).length := by
      simp [delimiter]
      omega
    rw [offset, ← List.drop_drop, spelled, List.drop_left, List.append_nil]
  obtain ⟨parsed, looped⟩ := preambleLoop_delimiter (by simp) spelled
  have inert : plainAfterLF boundary (LF :: []) = false := by
    simp [plainAfterLF, plainHere, delimiter]
  have split := partLoop_opened parsePart free nonempty ok restSpelled inert
  rw [← split, mailmimeMultipartBodyParse]
  simp only [parsed, looped]
  cases partLoop parsePart (header ++ multipartLayout boundary parts) boundary
    ((header ++ multipartLayout boundary parts).length + 1)
    (skipBlankLines (header ++ multipartLayout boundary parts)
      ((header ++ multipartLayout boundary parts).length + 1) (header.length + 2 + boundary.length)) <;> rfl

theorem collectParts_ok (parts : List (List UInt8)) : collectParts .ok parts = .ok parts := by
  induction parts with
  | nil => rfl
  | cons part parts ih => simp [collectParts, ih, Except.map]

end Layout

/-- The layout is split into exactly the parts it was made of, after any header and
whatever the part parser makes of them. -/
theorem mailmimeMultipartBodyParse_layout (stray : Nat → UInt8) (header : List UInt8) {boundary : List UInt8}
    (free : BreakFree boundary) {parts : List (List UInt8)} (nonempty : parts ≠ [])
    (ok : ∀ part ∈ parts, LayoutPart boundary part) :
    (mailmimeMultipartBodyParse .ok stray (header ++ multipartLayout boundary parts) boundary
      header.length).map MultipartBody.parts = .ok parts ∧
    ∀ {α : Type} (parsePart : List UInt8 → Except MailimfError α),
      (mailmimeMultipartBodyParse parsePart stray (header ++ multipartLayout boundary parts) boundary
        header.length).map MultipartBody.parts = collectParts parsePart parts := by
  constructor
  · rw [mailmimeMultipartBodyParse_collect .ok stray header free nonempty ok, collectParts_ok]
  · intro α parsePart
    exact mailmimeMultipartBodyParse_collect parsePart stray header free nonempty ok

/-- Almost-delimiters inside the parts are kept. -/
theorem mailmimeMultipartBodyParse_layout_dashes :
    (mailmimeMultipartBodyParse .ok (fun _ => 0)
      (multipartLayout [ascii 'b'] [[ascii 'x', CR, LF, ascii '-', ascii '-', CR], [ascii '-', LF]]) [ascii 'b']
      0).map MultipartBody.parts = .ok [[ascii 'x', CR, LF, ascii '-', ascii '-', CR], [ascii '-', LF]] := by
  have ok : ∀ part ∈ [[ascii 'x', CR, LF, ascii '-', ascii '-', CR], [ascii '-', LF]], LayoutPart [ascii 'b'] part := by
    intro part member
    rcases List.mem_cons.mp member with rfl | member
    · exact ⟨by decide, by decide, by decide⟩
    · have last : part = [ascii '-', LF] := by simpa using member
      subst last
      exact ⟨by decide, by decide, by decide⟩
  exact (mailmimeMultipartBodyParse_layout (fun _ => 0) [] (by decide) (by decide) ok).1

/-- A boundary that holds a line end is found across the end of a part, and a part of
blanks alone is taken for a blank line. -/
theorem mailmimeMultipartBodyParse_straddles :
    (hasDelimiterLine [ascii 'a', CR] [ascii 'x', CR, LF, ascii '-', ascii '-', ascii 'a'] = false ∧
      blankLine [ascii 'x', CR, LF, ascii '-', ascii '-', ascii 'a'] = none ∧
      (mailmimeMultipartBodyParse .ok (fun _ => 0)
        (multipartLayout [ascii 'a', CR] [[ascii 'x', CR, LF, ascii '-', ascii '-', ascii 'a']]) [ascii 'a', CR]
        0).map MultipartBody.parts ≠ .ok [[ascii 'x', CR, LF, ascii '-', ascii '-', ascii 'a']]) ∧
    (hasDelimiterLine [ascii 'b'] [ascii ' '] = false ∧ blankLine [ascii ' '] = none ∧
      (mailmimeMultipartBodyParse .ok (fun _ => 0) (multipartLayout [ascii 'b'] [[ascii ' ']]) [ascii 'b']
        0).map MultipartBody.parts ≠ .ok [[ascii ' ']]) := by
  decide

end Etpan.Mime
