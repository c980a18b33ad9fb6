import Etpan.Mime.MultipartWrite

namespace Etpan.Mime

open Etpan.Data Etpan.Imf

/-! What becomes of the text before the first delimiter and after the close
delimiter. -/

/-- The preamble loop as one scan: the octets up to the end of the first `--` that the
scanner accepts and that the boundary follows. -/
def delimiterScan (boundary : List UInt8) : PreambleState → List UInt8 → Option Nat
  | _, [] => none
  | state, ch :: rest =>
      if state = .e ∧ boundaryHere boundary (ch :: rest) then some 0
      else (delimiterScan boundary (preambleStep (if state = .e then .a else state) ch) rest).map (· + 1)

section Scan

variable {message boundary : List UInt8}

theorem delimiterScan_step {state : PreambleState} (searching : state ≠ .e) (ch : UInt8) (rest : List UInt8) :
    delimiterScan boundary state (ch :: rest) =
      (delimiterScan boundary (preambleStep state ch) rest).map (· + 1) := by
  simp [delimiterScan, searching]

theorem delimiterScan_here {rest : List UInt8} (here : boundaryHere boundary rest = true) :
    delimiterScan boundary .e rest = some 0 := by
  cases rest with
  | nil => simp [boundaryHere] at here
  | cons ch rest => simp [delimiterScan, here]

theorem delimiterScan_mismatch {rest : List UInt8} (mismatch : boundaryHere boundary rest = false) :
    delimiterScan boundary .e rest = delimiterScan boundary .a rest := by
  cases rest with
  | nil => rfl
  | cons ch rest => simp [delimiterScan, mismatch]

theorem delimiterScan_of_preambleScan {state : PreambleState} (text : List UInt8) :
    delimiterScan boundary state text =
      (preambleScan state text).bind fun count => (delimiterScan boundary .e (text.drop count)).map (· + count) := by
  induction text generalizing state with
  | nil => cases state <;> rfl
  | cons ch text ih =>
      by_cases accepted : state = .e
      · subst accepted
        simp [preambleScan]
      · have scanned : preambleScan state (ch :: text) = (preambleScan (preambleStep state ch) text).map (· + 1) := by
          cases state <;> first | contradiction | rfl
        rw [delimiterScan_step accepted, ih, scanned]
        cases preambleScan (preambleStep state ch) text with
        | none => rfl
        | some count => simp [Option.map_map, Function.comp_def, Nat.add_assoc]

theorem preambleScan_pos {state : PreambleState} (searching : state ≠ .e) {text : List UInt8} {count : Nat}
    (scanned : preambleScan state text = some count) : 0 < count ∧ count ≤ text.length := by
  induction text generalizing state count with
  | nil => cases state <;> simp [preambleScan] at scanned searching
  | cons ch text ih =>
      have stepped : (preambleScan (preambleStep state ch) text).map (· + 1) = some count := by
        rw [← scanned]
        cases state <;> first | contradiction | rfl
      obtain ⟨later, found, rfl⟩ := Option.map_eq_some_iff.mp stepped
      by_cases accepted : preambleStep state ch = .e
      · rw [accepted] at found
        have none : later = 0 := by
          cases text <;> simpa [preambleScan, eq_comm] using found
        simp [none]
      · have bounds := ih accepted found
        rw [List.length_cons]
        omega

theorem preambleLoop_scan {turns cur count : Nat} (enough : message.length < turns + cur)
    (scanned : delimiterScan boundary .e (message.drop cur) = some count) :
    preambleLoop message boundary turns cur = (cur + count + boundary.length, cur + count) := by
  induction turns generalizing cur count with
  | zero =>
      rw [List.drop_eq_nil_of_le (by omega)] at scanned
      simp [delimiterScan] at scanned
  | succ turns ih =>
      rw [preambleLoop, mailmimeBoundaryParse]
      cases here : boundaryHere boundary (message.drop cur) with
      | true =>
          rw [delimiterScan_here here, Option.some.injEq] at scanned
          subst scanned
          simp
      | false =>
          rw [delimiterScan_mismatch here, delimiterScan_of_preambleScan] at scanned
          obtain ⟨skipped, found, rest⟩ := Option.bind_eq_some_iff.mp scanned
          obtain ⟨later, restScanned, rfl⟩ := Option.map_eq_some_iff.mp rest
          have progress := preambleScan_pos (by decide) found
          have parsed : mailmimePreambleParse message cur false = .ok (cur + skipped) := by
            simp [mailmimePreambleParse, found]
          rw [List.drop_drop] at restScanned
          have looped := ih (by omega) restScanned
          simp only [Bool.false_eq_true, if_false, parsed, looped, Prod.mk.injEq]
          omega

theorem opened_scan {indx count : Nat} (scanned : delimiterScan boundary .a0 (message.drop indx) = some count) :
    ∃ cur, mailmimePreambleParse message indx true = .ok cur ∧
      preambleLoop message boundary (message.length + 1) cur =
        (indx + count + boundary.length, indx + count) := by
  rw [delimiterScan_of_preambleScan] at scanned
  obtain ⟨skipped, found, rest⟩ := Option.bind_eq_some_iff.mp scanned
  obtain ⟨later, restScanned, rfl⟩ := Option.map_eq_some_iff.mp rest
  rw [List.drop_drop] at restScanned
  refine ⟨indx + skipped, by simp [mailmimePreambleParse, found], ?_⟩
  rw [preambleLoop_scan (by omega) restScanned, Prod.mk.injEq]
  omega

variable {line tail : List UInt8}

theorem delimiterScan_a (free : BreakFree line) :
    delimiterScan boundary .a (line ++ CR :: LF :: tail) =
      (delimiterScan boundary .c tail).map (· + (line.length + 2)) := by
  induction line with
  | nil =>
      have onCR : preambleStep .a CR = .b ∧ preambleStep .b LF = .c := by decide
      rw [List.nil_append, delimiterScan_step (by decide), onCR.1, delimiterScan_step (by decide), onCR.2]
      simp [Option.map_map, Function.comp_def]
  | cons ch line ih =>
      have this := free ch (by simp)
      have tailFree : BreakFree line := fun byte member => free byte (by simp [member])
      have stays : preambleStep .a ch = .a := by simp [preambleStep, this.1, this.2]
      rw [List.cons_append, delimiterScan_step (by decide), stays, ih tailFree]
      simp [Option.map_map, Function.comp_def, Nat.add_assoc]

theorem delimiterScan_e (free : BreakFree boundary) (lineFree : BreakFree line) :
    delimiterScan boundary .e (line ++ CR :: LF :: tail) =
      if boundary.isPrefixOf line then some 0
      else (delimiterScan boundary .c tail).map (· + (line.length + 2)) := by
  have here : boundaryHere boundary (line ++ CR :: LF :: tail) = boundary.isPrefixOf line :=
    boundaryHere_break free (.inl rfl)
  cases starts : boundary.isPrefixOf line with
  | true => rw [delimiterScan_here (here.trans starts)]; rfl
  | false =>
      rw [delimiterScan_mismatch (here.trans starts), delimiterScan_a lineFree]
      rfl

theorem delimiterScan_crlf {state : PreambleState} (searching : state ≠ .e) :
    delimiterScan boundary state (CR :: LF :: tail) = (delimiterScan boundary .c tail).map (· + 2) := by
  have ended : preambleStep state CR ≠ .e ∧ preambleStep (preambleStep state CR) LF = .c := by
    cases state <;> first | contradiction | decide
  rw [delimiterScan_step searching, delimiterScan_step ended.1, ended.2]
  simp [Option.map_map, Function.comp_def]

theorem delimiterScan_dash (free : BreakFree boundary) (lineFree : BreakFree line) {state : PreambleState}
    (afterDash : state = .a1 ∨ state = .d) :
    delimiterScan boundary state (line ++ CR :: LF :: tail) =
      if (ascii '-' :: boundary).isPrefixOf line then some 1
      else (delimiterScan boundary .c tail).map (· + (line.length + 2)) := by
  have searching : state ≠ .e := by rcases afterDash with rfl | rfl <;> decide
  cases line with
  | nil =>
      rw [List.nil_append, delimiterScan_crlf searching]
      simp
  | cons ch line =>
      have this := lineFree ch (by simp)
      have tailFree : BreakFree line := fun byte member => lineFree byte (by simp [member])
      rw [List.cons_append, delimiterScan_step searching]
      by_cases dash : ch = ascii '-'
      · have found : preambleStep state ch = .e := by
          subst dash
          rcases afterDash with rfl | rfl <;> decide
        rw [found, delimiterScan_e free tailFree]
        cases starts : boundary.isPrefixOf line with
        | true => simp [List.isPrefixOf, dash, starts]
        | false => simp [List.isPrefixOf, starts, Option.map_map, Function.comp_def, Nat.add_assoc]
      · have lost : preambleStep state ch = .a := by
          rcases afterDash with rfl | rfl <;> simp [preambleStep, dash, this.1, this.2]
        rw [lost, delimiterScan_a tailFree]
        simp [List.isPrefixOf, Ne.symm dash, Option.map_map, Function.comp_def, Nat.add_assoc]

theorem delimiterScan_a0 (free : BreakFree boundary) (lineFree : BreakFree line) :
    delimiterScan boundary .a0 (line ++ CR :: LF :: tail) =
      if (delimiter boundary).isPrefixOf line then some 2
      else (delimiterScan boundary .c tail).map (· + (line.length + 2)) := by
  cases line with
  | nil =>
      rw [List.nil_append, delimiterScan_crlf (by decide)]
      simp [delimiter]
  | cons ch line =>
      have this := lineFree ch (by simp)
      have tailFree : BreakFree line := fun byte member => lineFree byte (by simp [member])
      rw [List.cons_append, delimiterScan_step (by decide)]
      by_cases dash : ch = ascii '-'
      · have stepped : preambleStep .a0 ch = .a1 := by simp [preambleStep, dash]
        rw [stepped, delimiterScan_dash free tailFree (.inl rfl)]
        cases starts : (ascii '-' :: boundary).isPrefixOf line with
        | true => simp [delimiter, dash, starts]
        | false =>
            rw [delimiter, List.isPrefixOf, starts]
            simp [Option.map_map, Function.comp_def, Nat.add_assoc]
      · have stepped : preambleStep .a0 ch = .a := by simp [preambleStep, dash, this.1, this.2]
        rw [stepped, delimiterScan_a tailFree]
        simp [delimiter, List.isPrefixOf, Ne.symm dash, Option.map_map, Function.comp_def, Nat.add_assoc]

/-- One octet stands before a delimiter.  In states B and C the scanner takes the place
after such an octet for the start of a line. -/
def shiftedDelimiter (boundary : List UInt8) : List UInt8 → Bool
  | [] => false
  | ch :: rest => ch != ascii '-' && (delimiter boundary).isPrefixOf rest

theorem delimiterScan_c (free : BreakFree boundary) (lineFree : BreakFree line) :
    delimiterScan boundary .c (line ++ CR :: LF :: tail) =
      if (delimiter boundary).isPrefixOf line then some 2
      else if shiftedDelimiter boundary line then some 3
      else (delimiterScan boundary .c tail).map (· + (line.length + 2)) := by
  cases line with
  | nil =>
      rw [List.nil_append, delimiterScan_crlf (by decide)]
      simp [delimiter, shiftedDelimiter]
  | cons ch line =>
      have this := lineFree ch (by simp)
      have tailFree : BreakFree line := fun byte member => lineFree byte (by simp [member])
      rw [List.cons_append, delimiterScan_step (by decide)]
      by_cases dash : ch = ascii '-'
      · have stepped : preambleStep .c ch = .d := by simp [preambleStep, dash]
        rw [stepped, delimiterScan_dash free tailFree (.inr rfl)]
        cases starts : (ascii '-' :: boundary).isPrefixOf line with
        | true => simp [delimiter, dash, starts]
        | false =>
            rw [delimiter, List.isPrefixOf, starts]
            simp [shiftedDelimiter, dash, Option.map_map, Function.comp_def, Nat.add_assoc]
      · have stepped : preambleStep .c ch = .a0 := by simp [preambleStep, dash, this.1, this.2]
        have notHere : (delimiter boundary).isPrefixOf (ch :: line) = false := by
          simp [delimiter, List.isPrefixOf, Ne.symm dash]
        rw [stepped, delimiterScan_a0 free tailFree, notHere]
        cases starts : (delimiter boundary).isPrefixOf line with
        | true => simp [shiftedDelimiter, dash, starts]
        | false => simp [shiftedDelimiter, starts, Option.map_map, Function.comp_def, Nat.add_assoc]

/-- Where the scan stops in lines that a delimiter follows; `first` says that the
first of them is the first line of the body. -/
inductive StopsAt (boundary : List UInt8) (first : Bool) (lines : List (List UInt8)) : Nat → Prop
  | behind (unstarted : ∀ line ∈ lines, (delimiter boundary).isPrefixOf line = false)
      (unshifted : ∀ line ∈ (if first then lines.tail else lines), shiftedDelimiter boundary line = false) :
      StopsAt boundary first lines ((joinLines lines).length + 2)
  | started (earlier : List (List UInt8)) (line : List UInt8) (later : List (List UInt8))
      (spelled : lines = earlier ++ line :: later) (starts : (delimiter boundary).isPrefixOf line = true) :
      StopsAt boundary first lines ((joinLines earlier).length + 2)
  | shifted (earlier : List (List UInt8)) (line : List UInt8) (later : List (List UInt8))
      (spelled : lines = earlier ++ line :: later) (shifted : shiftedDelimiter boundary line = true)
      (second : first = true → earlier ≠ []) :
      StopsAt boundary first lines ((joinLines earlier).length + 3)

theorem StopsAt.cons {lines : List (List UInt8)} {count : Nat} {first : Bool}
    (unstarted : (delimiter boundary).isPrefixOf line = false)
    (unshifted : first = true ∨ shiftedDelimiter boundary line = false) (stops : StopsAt boundary false lines count) :
    StopsAt boundary first (line :: lines) (count + (line.length + 2)) := by
  have offset : ∀ earlier : List (List UInt8), ∀ more,
      (joinLines earlier).length + more + (line.length + 2) = (joinLines (line :: earlier)).length + more := by
    intro earlier more
    simp
    omega
  cases stops with
  | behind othersUnstarted othersUnshifted =>
      rw [offset]
      apply StopsAt.behind
      · intro other member
        rcases List.mem_cons.mp member with rfl | later
        · exact unstarted
        · exact othersUnstarted other later
      · intro other member
        cases first with
        | true => exact othersUnshifted other (by simpa using member)
        | false =>
            have here : shiftedDelimiter boundary line = false := by simpa using unshifted
            rcases List.mem_cons.mp (by simpa using member) with rfl | later
            · exact here
            · exact othersUnshifted other (by simpa using later)
  | started earlier found later spelled starts =>
      rw [offset]
      exact .started (line :: earlier) found later (by simp [spelled]) starts
  | shifted earlier found later spelled shifted second =>
      rw [offset]
      exact .shifted (line :: earlier) found later (by simp [spelled]) shifted (by simp)

theorem delimiterScan_lines (free : BreakFree boundary) {lines : List (List UInt8)}
    (linesFree : ∀ line ∈ lines, BreakFree line) {after : List UInt8} (more : after ≠ []) :
    ∃ count, delimiterScan boundary .c (joinLines lines ++ (delimiter boundary ++ after)) = some count ∧
      StopsAt boundary false lines count := by
  induction lines with
  | nil =>
      have dashes : preambleStep .c (ascii '-') = .d ∧ preambleStep .d (ascii '-') = .e := by decide
      have here : boundaryHere boundary (boundary ++ after) = true := by
        simp [boundaryHere, List.length_pos_iff.mpr more]
      refine ⟨2, ?_, .behind (by simp) (by simp)⟩
      rw [joinLines_nil, List.nil_append, delimiter, List.cons_append, List.cons_append,
        delimiterScan_step (by decide), dashes.1, delimiterScan_step (by decide), dashes.2, delimiterScan_here here]
      rfl
  | cons line lines ih =>
      have lineFree := linesFree line (by simp)
      obtain ⟨count, scanned, stops⟩ := ih (fun other member => linesFree other (by simp [member]))
      rw [joinLines_cons, List.append_assoc, List.cons_append, List.cons_append, delimiterScan_c free lineFree, scanned]
      cases starts : (delimiter boundary).isPrefixOf line with
      | true => exact ⟨2, by simp, .started [] line lines rfl starts⟩
      | false =>
          cases shifted : shiftedDelimiter boundary line with
          | true => exact ⟨3, by simp, .shifted [] line lines rfl shifted (by simp)⟩
          | false => exact ⟨_, by simp, stops.cons starts (.inr shifted)⟩

theorem delimiterScan_text (free : BreakFree boundary) {lines : List (List UInt8)} (nonempty : lines ≠ [])
    (linesFree : ∀ line ∈ lines, BreakFree line) {after : List UInt8} (more : after ≠ []) :
    ∃ count, delimiterScan boundary .a0 (joinLines lines ++ (delimiter boundary ++ after)) = some count ∧
      StopsAt boundary true lines count := by
  cases lines with
  | nil => contradiction
  | cons line lines =>
      have lineFree := linesFree line (by simp)
      obtain ⟨count, scanned, stops⟩ :=
        delimiterScan_lines free (fun other member => linesFree other (List.mem_cons_of_mem line member)) more
      rw [joinLines_cons, List.append_assoc, List.cons_append, List.cons_append, delimiterScan_a0 free lineFree, scanned]
      cases starts : (delimiter boundary).isPrefixOf line with
      | true => exact ⟨2, by simp, .started [] line lines rfl starts⟩
      | false => exact ⟨_, by simp, stops.cons starts (.inl rfl)⟩

variable (stray : Nat → UInt8) {indx : Nat} {text rest : List UInt8}

theorem sizeSub_of_le {left right : Nat} (fits : right ≤ left) : sizeSub left right = left - right := by
  rw [sizeSub, if_pos fits]

theorem preambleLength_start : preambleLength stray message indx (indx + 2) = 0 := by
  simp [preambleLength, sizeSub_of_le]

theorem preambleLength_crlf (spelled : message.drop indx = text ++ CR :: LF :: rest) :
    preambleLength stray message indx (indx + text.length + 4) = text.length := by
  have onCR : message[indx + text.length]? = some CR := by
    rw [getElem?_of_drop spelled]
    simp
  have onLF : message[indx + text.length + 1]? = some LF := by
    rw [Nat.add_assoc, getElem?_of_drop spelled]
    simp
  have end2 : sizeSub (indx + text.length + 4) 2 = indx + text.length + 2 := sizeSub_of_le (by omega)
  have end1 : sizeSub (indx + text.length + 2) 1 = indx + text.length + 1 := sizeSub_of_le (by omega)
  have end0 : sizeSub (indx + text.length + 1) 1 = indx + text.length := sizeSub_of_le (by omega)
  have notEmpty : ¬ indx + text.length + 2 = indx := by omega
  simp only [preambleLength, end2, end1, end0, if_neg notEmpty, onLF, onCR, Option.getD_some, if_true,
    Nat.le_add_right, and_self, Nat.add_sub_cancel_left]

theorem preambleLength_other {ch : UInt8} (spelled : message.drop indx = text ++ ch :: rest) (notCR : ch ≠ CR)
    (notLF : ch ≠ LF) : preambleLength stray message indx (indx + text.length + 3) = text.length + 1 := by
  have onOther : message[indx + text.length]? = some ch := by
    rw [getElem?_of_drop spelled]
    simp
  have end2 : sizeSub (indx + text.length + 3) 2 = indx + text.length + 1 := sizeSub_of_le (by omega)
  have end1 : sizeSub (indx + text.length + 1) 1 = indx + text.length := sizeSub_of_le (by omega)
  have notEmpty : ¬ indx + text.length + 1 = indx := by omega
  simp only [preambleLength, end2, end1, if_neg notEmpty, onOther, Option.getD_some, if_neg notLF, if_neg notCR]
  omega

def preambleText (stray : Nat → UInt8) (message : List UInt8) (indx count : Nat) : List UInt8 :=
  (message.drop indx).take (preambleLength stray message indx (indx + count))

theorem preambleText_behind {lines : List (List UInt8)} (nonempty : lines ≠ [])
    (spelled : message.drop indx = joinLines lines ++ rest) :
    preambleText stray message indx ((joinLines lines).length + 2) = separateLines lines := by
  have joined := separateLines_append_crlf nonempty
  have atBreak : message.drop indx = separateLines lines ++ CR :: LF :: rest := by
    rw [spelled, ← joined]
    simp
  have offset : indx + ((joinLines lines).length + 2) = indx + (separateLines lines).length + 4 := by
    rw [← joined]
    simp
    omega
  rw [preambleText, offset, preambleLength_crlf stray atBreak, atBreak, List.take_left]

theorem preambleText_shifted {lines : List (List UInt8)} {ch : UInt8}
    (spelled : message.drop indx = joinLines lines ++ ch :: rest) (notCR : ch ≠ CR) (notLF : ch ≠ LF) :
    preambleText stray message indx ((joinLines lines).length + 3) = joinLines lines ++ [ch] := by
  have offset : indx + ((joinLines lines).length + 3) = indx + (joinLines lines).length + 3 := by omega
  have joined : joinLines lines ++ ch :: rest = (joinLines lines ++ [ch]) ++ rest := by simp
  have size : (joinLines lines).length + 1 = (joinLines lines ++ [ch]).length := by simp
  rw [preambleText, offset, preambleLength_other stray spelled notCR notLF, spelled, joined, size, List.take_left]

theorem StopsAt.kept {preamble : List UInt8} {count : Nat}
    (stops : StopsAt boundary true (brokenLines (splitLines preamble)) count)
    (spelled : message.drop indx = joinLines (brokenLines (splitLines preamble)) ++ rest)
    (found : preambleText stray message indx count = preamble) :
    count = (joinLines (brokenLines (splitLines preamble))).length + 2 ∧ KeptText preamble ∧
      ∀ line ∈ (splitLines preamble).tail, shiftedDelimiter boundary line = false := by
  have linesFree := brokenLines_breakFree (splitLines_breakFree preamble)
  have nonempty := brokenLines_ne_nil (splitLines_ne_nil preamble)
  cases stops with
  | behind unstarted unshifted =>
      rw [preambleText_behind stray nonempty spelled] at found
      have kept := (writtenText_eq_self_iff preamble).mp found
      rw [brokenLines_short kept.2] at unshifted
      exact ⟨rfl, kept, by simpa using unshifted⟩
  | started earlier line later broken starts =>
      exfalso
      have notEmpty : line ≠ [] := by
        rintro rfl
        simp [delimiter] at starts
      cases earlier with
      | nil =>
          have empty : preamble = [] := by
            rw [← found, preambleText, joinLines_nil, List.length_nil, Nat.zero_add, preambleLength_start]
            rfl
          subst empty
          have single : brokenLines (splitLines []) = [[]] := by decide
          rw [single] at broken
          simp [eq_comm] at broken
          exact notEmpty broken.1
      | cons first others =>
          rw [broken] at spelled
          simp only [joinLines_append, List.append_assoc] at spelled
          rw [preambleText_behind stray (by simp) spelled] at found
          have split : splitLines preamble = (first :: others) ++ [] := by
            rw [← found, splitLines_separateLines (by simp) (fun other member =>
              linesFree other (by rw [broken]; exact List.mem_append_left _ member)), List.append_nil]
          rw [split] at broken
          exact brokenLines_leftover notEmpty (.inl rfl) broken
  | shifted earlier line later broken shifted second =>
      exfalso
      cases line with
      | nil => simp [shiftedDelimiter] at shifted
      | cons ch line =>
          have lineFree := linesFree (ch :: line) (by simp [broken])
          have this := lineFree ch (by simp)
          rw [broken] at spelled
          simp only [joinLines_append, joinLines_cons, List.append_assoc, List.cons_append] at spelled
          rw [preambleText_shifted stray spelled this.1 this.2] at found
          have single : BreakFree [ch] := BreakFree.cons this.1 this.2 (by simp [BreakFree])
          have split : splitLines preamble = earlier ++ [[ch]] := by
            rw [← found]
            exact splitLines_joinLines_append
              (fun other member => linesFree other (by simp [broken, member])) single
          have longer : [ch] ≠ ch :: line := by
            intro same
            have none : line = [] := (List.cons.inj same).2.symm
            rw [none] at shifted
            simp [shiftedDelimiter, delimiter] at shifted
          rw [split] at broken
          have fits : [ch].length ≤ maxImfLine := by rw [List.length_singleton]; decide
          exact brokenLines_leftover (by simp) (.inr ⟨[ch], rfl, fits, longer⟩) broken

theorem StopsAt.of_kept {preamble : List UInt8} {count : Nat}
    (stops : StopsAt boundary true (brokenLines (splitLines preamble)) count) (kept : KeptText preamble)
    (unstarted : ∀ line ∈ splitLines preamble, (delimiter boundary).isPrefixOf line = false)
    (unshifted : ∀ line ∈ (splitLines preamble).tail, shiftedDelimiter boundary line = false) :
    count = (joinLines (brokenLines (splitLines preamble))).length + 2 := by
  have same := brokenLines_short kept.2
  cases stops with
  | behind => rfl
  | started earlier line later spelled starts =>
      have member : line ∈ splitLines preamble := by
        rw [← same, spelled]
        simp
      rw [unstarted line member] at starts
      contradiction
  | shifted earlier line later spelled shifted second =>
      obtain ⟨first, others, rfl⟩ := List.exists_cons_of_ne_nil (second rfl)
      have member : line ∈ (splitLines preamble).tail := by
        rw [← same, spelled]
        simp
      rw [unshifted line member] at shifted
      contradiction

end Scan

section Extra

variable {message boundary : List UInt8}

theorem delimiterAfterLF_of_plain {text : List UInt8} (plain : plainAfterLF boundary text = true) :
    delimiterAfterLF boundary text = true := by
  induction text with
  | nil => simp [plainAfterLF] at plain
  | cons ch text ih =>
      simp only [plainAfterLF, plainHere, Bool.or_eq_true, Bool.and_eq_true] at plain
      simp only [delimiterAfterLF, Bool.or_eq_true, Bool.and_eq_true]
      rcases plain with ⟨isLF, starts, -⟩ | later
      · exact .inl ⟨isLF, starts⟩
      · exact .inr (ih later)

theorem exists_first_delimiter (free : BreakFree boundary) {text : List UInt8}
    (found : delimiterAfterLF boundary text = true) :
    ∃ before after, text = before ++ LF :: (delimiter boundary ++ after) ∧
      delimiterAfterLF boundary before = false := by
  induction text with
  | nil => simp [delimiterAfterLF] at found
  | cons ch text ih =>
      cases here : ch == LF && (delimiter boundary).isPrefixOf text with
      | true =>
          simp only [Bool.and_eq_true, beq_iff_eq, List.isPrefixOf_iff_prefix] at here
          obtain ⟨rfl, after, rfl⟩ := here
          exact ⟨[], after, rfl, rfl⟩
      | false =>
          rw [delimiterAfterLF, here, Bool.false_or] at found
          obtain ⟨before, after, rfl, clean⟩ := ih found
          rw [isPrefixOf_break (delimiter_breakFree free) (.inr rfl)] at here
          exact ⟨ch :: before, after, rfl, by rw [delimiterAfterLF, here, clean, Bool.false_or]⟩

def atBreak : List UInt8 → Bool
  | [] => false
  | ch :: rest => ch == LF || (ch == CR && rest.head? == some LF)

theorem lineEndTrimmed_pos {before rest : List UInt8} (inLine : atBreak (before ++ LF :: rest) = false) :
    0 < lineEndTrimmed before := by
  match before with
  | [] => simp [atBreak] at inLine
  | [ch] =>
      have notCR : ch ≠ CR := by
        rintro rfl
        simp [atBreak] at inLine
      simp [lineEndTrimmed, notCR]
  | first :: second :: before =>
      rw [lineEndTrimmed]
      split <;> simp

theorem atBreak_of_blankLine {text : List UInt8} (notBlank : blankLine text = none) :
    atBreak (text.dropWhile isWsp) = false := by
  rw [blankLine_eq] at notBlank
  cases rest : text.dropWhile isWsp with
  | nil => rfl
  | cons ch after =>
      simp only [rest] at notBlank
      by_cases isCR : ch = CR
      · have unpaired : ¬ after.head? = some LF := by
          intro paired
          simp [isCR, paired] at notBlank
        simp [atBreak, isCR, unpaired]
      · by_cases isLF : ch = LF
        · simp [isLF] at notBlank
        · simp [atBreak, isCR, isLF]

theorem plainAfterLF_dropWhile (boundary text : List UInt8) :
    plainAfterLF boundary (text.dropWhile isWsp) = plainAfterLF boundary text := by
  have padding : BreakFree (text.takeWhile isWsp) := by
    intro byte member
    have blank := List.mem_takeWhile_imp member
    simp only [isWsp, decide_eq_true_eq] at blank
    rcases blank with rfl | rfl <;> decide
  rw [← plainAfterLF_breakFree padding, List.takeWhile_append_dropWhile]

/-- A plain delimiter line is found wherever it stands, past delimiters of other
kinds. -/
theorem transportCrlfLoop_found (free : BreakFree boundary) {turns cur : Nat} (enough : message.length < turns + cur)
    (plain : plainAfterLF boundary (message.drop cur) = true) (inLine : atBreak (message.drop cur) = false) :
    ∃ next endText, transportCrlfLoop message boundary turns cur = .ok (next, endText) ∧ cur < endText := by
  induction turns generalizing cur with
  | zero =>
      rw [List.drop_eq_nil_of_le (by omega)] at plain
      simp [plainAfterLF] at plain
  | succ turns ih =>
      obtain ⟨before, after, spelled, clean⟩ := exists_first_delimiter free (delimiterAfterLF_of_plain plain)
      rw [spelled] at plain inLine
      have nonempty := lineEndTrimmed_pos inLine
      rw [plainAfterLF_append_of_clean free clean (.inr rfl)] at plain
      cases blank : blankLine after with
      | some count =>
          exact ⟨_, _, transportCrlfLoop_plain turns free clean spelled nonempty blank, by omega⟩
      | none =>
          have plainRest : plainAfterLF boundary after = true := by
            have notHere : plainHere boundary (delimiter boundary ++ after) = false := by
              simp [plainHere, blank]
            rw [plainAfterLF, notHere, Bool.and_false, Bool.false_or,
              plainAfterLF_breakFree (delimiter_breakFree free)] at plain
            exact plain
          have more : after ≠ [] := by
            rintro rfl
            simp [plainAfterLF] at plainRest
          have dropped := drop_delimiter spelled
          have skipped := drop_skipLwsp message (cur + before.length + 3 + boundary.length)
          have ahead : cur < skipLwsp message (cur + before.length + 3 + boundary.length) := by
            rw [skipLwsp_eq]
            omega
          have enoughRest : message.length < turns + skipLwsp message (cur + before.length + 3 + boundary.length) := by
            omega
          rw [dropped] at skipped
          obtain ⟨next, endText, found, later⟩ := ih enoughRest
            (by rw [skipped, plainAfterLF_dropWhile, plainRest])
            (by rw [skipped, atBreak_of_blankLine blank])
          refine ⟨next, endText, ?_, by omega⟩
          simp only [transportCrlfLoop, mailmimeBodyPartDash2Parse_delimiter free more clean spelled nonempty,
            mailimfCrlfParse_skipLwsp, mailmimeMultipartNextParse, dropped, blank, found]

theorem atBreak_dash (rest : List UInt8) : atBreak (ascii '-' :: rest) = false := by
  have notBreak : ascii '-' ≠ LF ∧ ascii '-' ≠ CR := by decide
  simp [atBreak, notBreak]

/-- The last part when a plain delimiter line stands behind the close delimiter: the
loop gives a longer slice to the part parser. -/
theorem partLoop_overrun (free : BreakFree boundary) {part extra : List UInt8} {cur : Nat}
    (ok : LayoutPart boundary part)
    (spelled : message.drop cur =
      part ++ CR :: LF :: (delimiter boundary ++ ascii '-' :: ascii '-' :: CR :: LF :: extra))
    (plain : plainAfterLF boundary (LF :: extra) = true) (turns : Nat) (others : List (List UInt8)) :
    (partLoop .ok message boundary (turns + 1) cur).map Prod.fst ≠ .ok (part :: others) := by
  have rest := drop_part spelled
  have passed : skipLwsp message (cur + part.length + 4 + boundary.length) = cur + part.length + 4 + boundary.length := by
    have notWsp : isWsp (ascii '-') = false := by decide
    rw [skipLwsp_eq, rest]
    simp [notWsp]
  have refused : mailimfCrlfParse message (cur + part.length + 4 + boundary.length) = .error .parse := by
    have notBreak : ascii '-' ≠ CR ∧ ascii '-' ≠ LF := by decide
    simp [mailimfCrlfParse, rest, notBreak]
  have long : cur + part.length + 4 + boundary.length < message.length := by
    have lengths := congrArg List.length rest
    simp only [List.length_drop, List.length_cons] at lengths
    omega
  have plainRest : plainAfterLF boundary (message.drop (cur + part.length + 4 + boundary.length)) = true := by
    rw [rest]
    calc plainAfterLF boundary ([ascii '-', ascii '-'] ++ CR :: LF :: extra)
        = plainAfterLF boundary (CR :: LF :: extra) := plainAfterLF_breakFree (by decide)
      _ = plainAfterLF boundary (LF :: extra) := by simp [plainAfterLF]
      _ = true := plain
  have inLine : atBreak (message.drop (cur + part.length + 4 + boundary.length)) = false := by
    rw [rest, atBreak_dash]
  have enough : message.length < message.length + (cur + part.length + 4 + boundary.length) := by omega
  obtain ⟨next, endText, found, later⟩ := transportCrlfLoop_found free enough plainRest inLine
  have transport : mailmimeBodyPartDash2TransportCrlfParse message boundary cur = .ok (next, endText) := by
    simp only [mailmimeBodyPartDash2TransportCrlfParse, transportCrlfLoop,
      mailmimeBodyPartDash2Parse_part free ok.nonempty ok.clean (by simp) spelled, passed, refused, found]
  have longer : (message.drop cur).take (endText - cur) ≠ part := by
    intro same
    have lengths := congrArg List.length same
    rw [List.length_take, List.length_drop] at lengths
    omega
  rw [partLoop]
  simp only [transport, Bool.false_eq_true, if_false]
  intro same
  generalize partLoop .ok message boundary turns _ = outcome at same
  cases outcome with
  | error reason => simp [Except.map] at same
  | ok result =>
      simp only [Except.map, Except.ok.injEq, List.cons.injEq] at same
      exact longer same.1

theorem partLoop_disturbed (free : BreakFree boundary) {parts : List (List UInt8)} (nonempty : parts ≠ [])
    (ok : ∀ part ∈ parts, LayoutPart boundary part) {extra : List UInt8} {cur : Nat}
    (spelled : message.drop cur = partsLayout boundary parts ++ extra)
    (plain : plainAfterLF boundary (LF :: extra) = true) (turns : Nat) :
    (partLoop .ok message boundary turns cur).map Prod.fst ≠ .ok parts := by
  induction parts generalizing cur turns with
  | nil => contradiction
  | cons part parts ih =>
      have this := ok part (by simp)
      have others : ∀ other ∈ parts, LayoutPart boundary other := fun other member => ok other (by simp [member])
      cases turns with
      | zero => simp [partLoop, Except.map]
      | succ turns =>
          cases parts with
          | nil =>
              have atClose : message.drop cur =
                  part ++ CR :: LF :: (delimiter boundary ++ ascii '-' :: ascii '-' :: CR :: LF :: extra) := by
                simpa [partsLayout] using spelled
              exact partLoop_overrun free this atClose plain turns []
          | cons next parts =>
              have atPlain : message.drop cur = part ++ CR :: LF ::
                  (delimiter boundary ++ CR :: LF :: (partsLayout boundary (next :: parts) ++ extra)) := by
                simpa [partsLayout_cons] using spelled
              have rest := ih (by simp) others (drop_plain atPlain) turns
              rw [partLoop_inner free this atPlain (partsLayout_notBlank (by simp) others extra)]
              intro same
              apply rest
              revert same
              cases partLoop .ok message boundary turns (cur + part.length + 6 + boundary.length) with
              | error reason => simp [Except.map]
              | ok result => simp [Except.map]

/-- The part loop over an inert end of the message, with where it leaves the message. -/
theorem partLoop_position (free : BreakFree boundary) {parts : List (List UInt8)} (nonempty : parts ≠ [])
    (ok : ∀ part ∈ parts, LayoutPart boundary part) {extra : List UInt8} {cur : Nat}
    (spelled : message.drop cur = partsLayout boundary parts ++ extra)
    (inert : plainAfterLF boundary (LF :: extra) = false) {turns : Nat} (enough : parts.length ≤ turns) :
    ∃ next, partLoop .ok message boundary turns cur = .ok (parts, next + (blankLine extra).getD 0) ∧
      message.drop next = extra := by
  induction parts generalizing cur turns with
  | nil => contradiction
  | cons part parts ih =>
      have this := ok part (by simp)
      have others : ∀ other ∈ parts, LayoutPart boundary other := fun other member => ok other (by simp [member])
      rw [List.length_cons] at enough
      obtain ⟨turns, rfl⟩ : ∃ fewer, turns = fewer + 1 := ⟨turns - 1, by omega⟩
      cases parts with
      | nil =>
          have atClose : message.drop cur =
              part ++ CR :: LF :: (delimiter boundary ++ ascii '-' :: ascii '-' :: CR :: LF :: extra) := by
            simpa [partsLayout] using spelled
          refine ⟨cur + part.length + 8 + boundary.length, partLoop_last free this.nonempty this.clean atClose inert turns, ?_⟩
          have offset : cur + part.length + 8 + boundary.length = cur + part.length + 4 + boundary.length + 4 := by
            omega
          rw [offset, ← List.drop_drop, drop_part atClose]
          rfl
      | cons next parts =>
          have atPlain : message.drop cur = part ++ CR :: LF ::
              (delimiter boundary ++ CR :: LF :: (partsLayout boundary (next :: parts) ++ extra)) := by
            simpa [partsLayout_cons] using spelled
          have fewer : (next :: parts).length ≤ turns := by omega
          obtain ⟨position, looped, dropped⟩ := ih (by simp) others (drop_plain atPlain) fewer
          refine ⟨position, ?_, dropped⟩
          rw [partLoop_inner free this atPlain (partsLayout_notBlank (by simp) others extra), looped]
          rfl

theorem splitLinesFrom_lf {afterCR : Bool} {before : List UInt8} (fresh : afterCR = false ∨ before ≠ [])
    (rest : List UInt8) :
    ∃ front, front ≠ [] ∧ splitLinesFrom afterCR (before ++ LF :: rest) = front ++ splitLines rest := by
  induction before generalizing afterCR with
  | nil =>
      have notAfter : afterCR = false := by simpa using fresh
      exact ⟨[[]], by simp, by simp [splitLinesFrom, splitLines, notAfter]⟩
  | cons byte before ih =>
      rw [List.cons_append, splitLinesFrom]
      split
      · obtain ⟨front, some, split⟩ := ih (.inl rfl)
        cases afterCR with
        | true => exact ⟨front, some, by simpa using split⟩
        | false => exact ⟨[] :: front, by simp, by simp [split]⟩
      split
      · by_cases nothing : before = []
        · subst nothing
          exact ⟨[[]], by simp, by simp [splitLinesFrom_afterCR, splitLines]⟩
        · have fresh : true = false ∨ before ≠ [] := .inr nothing
          obtain ⟨front, -, split⟩ := ih fresh
          exact ⟨[] :: front, by simp, by simp [split]⟩
      · obtain ⟨front, some, split⟩ := ih (.inl rfl)
        obtain ⟨line, lines, rfl⟩ := List.exists_cons_of_ne_nil some
        exact ⟨(byte :: line) :: lines, by simp, by simp [split, consHead]⟩

def epilogueText (message : List UInt8) (cur : Nat) : List UInt8 :=
  match mailimfCrlfParse message (skipLwsp message cur) with
  | .ok epilogueBegin => message.drop epilogueBegin
  | .error _ => []

theorem epilogueText_eq (message : List UInt8) (cur : Nat) :
    epilogueText message cur =
      match blankLine (message.drop cur) with
      | none => []
      | some count => message.drop (cur + count) := by
  rw [epilogueText, mailimfCrlfParse_skipLwsp, mailmimeMultipartNextParse]
  cases blankLine (message.drop cur) <;> rfl

theorem epilogueText_kept {front epilogue : List UInt8} (nonempty : epilogue ≠ []) {cur : Nat}
    (found : epilogueText (front ++ writtenText epilogue) cur = epilogue) : writtenText epilogue = epilogue := by
  rw [epilogueText_eq] at found
  split at found
  · exact absurd found.symm nonempty
  · next count blank =>
      obtain ⟨before, rest, spelled, rfl⟩ := blankLine_ends blank
      have dropped : (front ++ writtenText epilogue).drop (cur + (before.length + 1)) = rest := by
        rw [← List.drop_drop, spelled]
        simp
      rw [dropped] at found
      subst found
      -- what was found stands after an LF and is no longer than the written epilogue
      obtain ⟨whole, ended⟩ : ∃ whole, front ++ writtenText rest = whole ++ LF :: rest := by
        refine ⟨(front ++ writtenText rest).take cur ++ before, ?_⟩
        rw [List.append_assoc, ← spelled, List.take_append_drop]
      have bound := writtenText_length rest
      have notLater : ∀ inside, writtenText rest ≠ inside ++ LF :: rest := by
        intro inside tail
        have lines := splitLines_writtenText rest
        have fresh : false = false ∨ inside ≠ [] := .inl rfl
        obtain ⟨more, some, split⟩ := splitLinesFrom_lf fresh rest
        rw [tail, splitLines, split] at lines
        exact some (brokenLines_front (splitLines_ne_nil rest) lines.symm)
      rcases List.append_eq_append_iff.mp ended with ⟨inside, -, tail⟩ | ⟨inside, -, tail⟩
      · exact absurd tail (notLater inside)
      · rcases inside with _ | ⟨ch, _ | ⟨second, inside⟩⟩
        · exact absurd tail.symm (notLater [])
        · exact (List.cons.inj tail).2.symm
        · have lengths := congrArg List.length tail
          simp only [List.length_append, List.length_cons] at lengths
          omega

theorem splitLines_head {opening : List UInt8} (free : BreakFree opening) (after : List UInt8) :
    ∃ line lines, splitLines (opening ++ after) = line :: lines ∧ opening.isPrefixOf line = true := by
  induction opening with
  | nil =>
      obtain ⟨line, lines, split⟩ := List.exists_cons_of_ne_nil (splitLines_ne_nil after)
      exact ⟨line, lines, split, by simp⟩
  | cons byte opening ih =>
      have this := free byte (by simp)
      obtain ⟨line, lines, split, starts⟩ := ih (fun other member => free other (by simp [member]))
      rw [splitLines] at split
      refine ⟨byte :: line, lines, ?_, by simpa using starts⟩
      simp [splitLines, splitLinesFrom, this.1, this.2, split, consHead]

theorem plainAfterLF_of_lines (free : BreakFree boundary) {text : List UInt8}
    (unstarted : ∀ line ∈ splitLines text, (delimiter boundary).isPrefixOf line = false) :
    plainAfterLF boundary (LF :: text) = false := by
  rw [Bool.eq_false_iff]
  intro plain
  obtain ⟨before, after, spelled, -⟩ := exists_first_delimiter free (delimiterAfterLF_of_plain plain)
  have fresh : false = false ∨ before ≠ [] := .inl rfl
  obtain ⟨front, -, split⟩ := splitLinesFrom_lf fresh (delimiter boundary ++ after)
  obtain ⟨line, lines, headed, starts⟩ := splitLines_head (delimiter_breakFree free) after
  have inside : line ∈ [] :: splitLines text := by
    have whole : splitLinesFrom false (LF :: text) = [] :: splitLines text := by
      simp [splitLinesFrom, splitLines]
    rw [← whole, spelled, split, headed]
    simp
  rcases List.mem_cons.mp inside with rfl | isLine
  · simp [delimiter] at starts
  · rw [unstarted line isLine] at starts
    contradiction

theorem epilogueText_shorter {extra : List UInt8} (nonempty : extra ≠ []) {next : Nat}
    (dropped : message.drop next = extra) : epilogueText message (next + (blankLine extra).getD 0) ≠ extra := by
  rw [epilogueText_eq]
  split
  · exact nonempty.symm
  · next count blank =>
      obtain ⟨before, rest, -, rfl⟩ := blankLine_ends blank
      intro same
      have lengths := congrArg List.length same
      have whole := congrArg List.length dropped
      have some := List.length_pos_iff.mpr nonempty
      rw [List.length_drop] at lengths whole
      omega

end Extra

section Envelope

variable (stray : Nat → UInt8) {message boundary : List UInt8}

theorem mailmimeMultipartBodyParse_scanned {indx count : Nat}
    (scanned : delimiterScan boundary .a0 (message.drop indx) = some count) :
    mailmimeMultipartBodyParse .ok stray message boundary indx =
      (partLoop .ok message boundary (message.length + 1)
        (skipBlankLines message (message.length + 1) (indx + count + boundary.length))).map fun result =>
          { parts := result.1
            preamble := preambleText stray message indx count
            epilogue := epilogueText message result.2
            indx := message.length } := by
  obtain ⟨cur, parsed, looped⟩ := opened_scan scanned
  rw [mailmimeMultipartBodyParse]
  simp only [parsed, looped]
  cases partLoop .ok message boundary (message.length + 1)
    (skipBlankLines message (message.length + 1) (indx + count + boundary.length)) <;> rfl

variable {preamble : List UInt8} {parts : List (List UInt8)}

def envelopeMessage (header boundary preamble : List UInt8) (parts : List (List UInt8)) (extra : List UInt8) :
    List UInt8 :=
  header ++ (writtenText preamble ++ CR :: LF :: (multipartLayout boundary parts ++ extra))

theorem envelopeMessage_layout (header boundary preamble : List UInt8) (parts : List (List UInt8))
    (epilogue : Option (List UInt8)) :
    header ++ envelopeLayout boundary (some preamble) parts epilogue =
      envelopeMessage header boundary preamble parts (epilogue.elim [] writtenText) := by
  simp [envelopeLayout, envelopeMessage]

theorem envelopeMessage_drop (header boundary preamble : List UInt8) (parts : List (List UInt8))
    (extra : List UInt8) :
    (envelopeMessage header boundary preamble parts extra).drop header.length =
      joinLines (brokenLines (splitLines preamble)) ++
        (delimiter boundary ++ CR :: LF :: (partsLayout boundary parts ++ extra)) := by
  have joined := separateLines_append_crlf (brokenLines_ne_nil (splitLines_ne_nil preamble))
  rw [envelopeMessage, List.drop_left, ← joined, writtenText, multipartLayout]
  simp

theorem envelopeMessage_scanned (free : BreakFree boundary) (header preamble : List UInt8)
    (parts : List (List UInt8)) (extra : List UInt8) :
    ∃ count, delimiterScan boundary .a0 ((envelopeMessage header boundary preamble parts extra).drop header.length) =
        some count ∧
      StopsAt boundary true (brokenLines (splitLines preamble)) count := by
  rw [envelopeMessage_drop]
  exact delimiterScan_text free (brokenLines_ne_nil (splitLines_ne_nil preamble))
    (brokenLines_breakFree (splitLines_breakFree preamble)) (by simp)

theorem envelopeMessage_opened (header boundary preamble : List UInt8) (parts : List (List UInt8))
    (extra : List UInt8) :
    (envelopeMessage header boundary preamble parts extra).drop
        (header.length + ((joinLines (brokenLines (splitLines preamble))).length + 2) + boundary.length) =
      CR :: LF :: (partsLayout boundary parts ++ extra) := by
  have offset : header.length + ((joinLines (brokenLines (splitLines preamble))).length + 2) + boundary.length =
      header.length + (joinLines (brokenLines (splitLines preamble)) ++ delimiter boundary).length := by
    simp [delimiter]
    omega
  have joined : joinLines (brokenLines (splitLines preamble)) ++
      (delimiter boundary ++ CR :: LF :: (partsLayout boundary parts ++ extra)) =
      (joinLines (brokenLines (splitLines preamble)) ++ delimiter boundary) ++
        CR :: LF :: (partsLayout boundary parts ++ extra) := by simp
  rw [offset, ← List.drop_drop, envelopeMessage_drop, joined, List.drop_left]

/-- A preamble that is written as it is and in which the scanner sees no delimiter. -/
structure KeptPreamble (boundary preamble : List UInt8) : Prop where
  kept : KeptText preamble
  unshifted : ∀ line ∈ (splitLines preamble).tail, shiftedDelimiter boundary line = false

variable (header : List UInt8) (free : BreakFree boundary) (nonempty : parts ≠ [])
  (ok : ∀ part ∈ parts, LayoutPart boundary part)
  (unstarted : ∀ line ∈ splitLines preamble, (delimiter boundary).isPrefixOf line = false)

variable (parts) in
include free unstarted in
theorem mailmimeMultipartBodyParse_opened (kept : KeptPreamble boundary preamble) (extra : List UInt8) :
    ∃ cur, (envelopeMessage header boundary preamble parts extra).drop cur =
        CR :: LF :: (partsLayout boundary parts ++ extra) ∧
      mailmimeMultipartBodyParse .ok stray (envelopeMessage header boundary preamble parts extra) boundary
          header.length =
        (partLoop .ok (envelopeMessage header boundary preamble parts extra) boundary
          ((envelopeMessage header boundary preamble parts extra).length + 1)
          (skipBlankLines (envelopeMessage header boundary preamble parts extra)
            ((envelopeMessage header boundary preamble parts extra).length + 1) cur)).map fun result =>
          { parts := result.1
            preamble
            epilogue := epilogueText (envelopeMessage header boundary preamble parts extra) result.2
            indx := (envelopeMessage header boundary preamble parts extra).length } := by
  obtain ⟨count, scanned, stops⟩ := envelopeMessage_scanned free header preamble parts extra
  have atEnd := stops.of_kept kept.kept unstarted kept.unshifted
  subst atEnd
  have found := preambleText_behind stray (brokenLines_ne_nil (splitLines_ne_nil preamble))
    (envelopeMessage_drop header boundary preamble parts extra)
  have same : separateLines (brokenLines (splitLines preamble)) = preamble :=
    (writtenText_eq_self_iff preamble).mpr kept.kept
  refine ⟨_, envelopeMessage_opened header boundary preamble parts extra, ?_⟩
  rw [mailmimeMultipartBodyParse_scanned stray scanned, found, same]

include free unstarted nonempty ok in
/-- Octets after the close delimiter line change the parts exactly when a plain
delimiter line is among them. -/
theorem mailmimeMultipartBodyParse_extra (kept : KeptPreamble boundary preamble) (extra : List UInt8) :
    (mailmimeMultipartBodyParse .ok stray (envelopeMessage header boundary preamble parts extra) boundary
      header.length).map MultipartBody.parts = .ok parts ↔ plainAfterLF boundary (LF :: extra) = false := by
  obtain ⟨cur, dropped, parsed⟩ :=
    mailmimeMultipartBodyParse_opened stray parts header free unstarted kept extra
  have projected : ∀ outcome : Except MailimfError (List (List UInt8) × Nat),
      (outcome.map fun result => ({
        parts := result.1
        preamble
        epilogue := epilogueText (envelopeMessage header boundary preamble parts extra) result.2
        indx := (envelopeMessage header boundary preamble parts extra).length } :
          MultipartBody (List UInt8))).map MultipartBody.parts = outcome.map Prod.fst := by
    intro outcome
    cases outcome <;> rfl
  have atParts : (envelopeMessage header boundary preamble parts extra).drop (cur + 2) =
      partsLayout boundary parts ++ extra := by
    rw [← List.drop_drop, dropped]
    rfl
  rw [parsed, projected]
  cases plain : plainAfterLF boundary (LF :: extra) with
  | false =>
      have split := partLoop_opened .ok free nonempty ok dropped plain
      rw [split, collectParts_ok]
      simp
  | true =>
      have disturbed := partLoop_disturbed free nonempty ok atParts plain
        ((envelopeMessage header boundary preamble parts extra).length + 1)
      rw [skipBlankLines_layout nonempty ok dropped]
      simpa using disturbed

/-- Preamble and epilogue come back as they were given, and the octets `extra` after
the close delimiter line change no part. -/
structure EnvelopeKept (stray : Nat → UInt8) (header boundary preamble : List UInt8) (parts : List (List UInt8))
    (epilogue extra : List UInt8) : Prop where
  returned : ∃ body, mailmimeMultipartBodyParse .ok stray
      (header ++ envelopeLayout boundary (some preamble) parts (some epilogue)) boundary header.length = .ok body ∧
    body.preamble = preamble ∧ body.epilogue = epilogue
  inert : (mailmimeMultipartBodyParse .ok stray
        (header ++ envelopeLayout boundary (some preamble) parts none ++ extra) boundary
        header.length).map MultipartBody.parts =
      (mailmimeMultipartBodyParse .ok stray (header ++ envelopeLayout boundary (some preamble) parts none) boundary
        header.length).map MultipartBody.parts

include free nonempty ok unstarted in
theorem EnvelopeKept.preamble_epilogue {epilogue extra : List UInt8}
    (epilogueUnstarted : ∀ line ∈ splitLines epilogue, (delimiter boundary).isPrefixOf line = false)
    (whole : EnvelopeKept stray header boundary preamble parts epilogue extra) :
    KeptPreamble boundary preamble ∧ epilogue = [] := by
  obtain ⟨body, parsed, preambleSame, epilogueSame⟩ := whole.returned
  rw [envelopeMessage_layout, Option.elim_some] at parsed
  have kept : KeptPreamble boundary preamble := by
    obtain ⟨count, scanned, stops⟩ := envelopeMessage_scanned free header preamble parts (writtenText epilogue)
    rw [mailmimeMultipartBodyParse_scanned stray scanned] at parsed
    obtain ⟨result, -, rfl⟩ := exists_of_map_ok parsed
    have facts := stops.kept stray (envelopeMessage_drop header boundary preamble parts _) preambleSame
    exact ⟨facts.2.1, facts.2.2⟩
  refine ⟨kept, ?_⟩
  by_contra some
  obtain ⟨cur, dropped, opened⟩ :=
    mailmimeMultipartBodyParse_opened stray parts header free unstarted kept (writtenText epilogue)
  rw [opened] at parsed
  obtain ⟨result, looped, rfl⟩ := exists_of_map_ok parsed
  simp only at epilogueSame
  have written : writtenText epilogue = epilogue := by
    have spelled : envelopeMessage header boundary preamble parts (writtenText epilogue) =
        (header ++ (writtenText preamble ++ CR :: LF :: multipartLayout boundary parts)) ++ writtenText epilogue := by
      simp [envelopeMessage]
    rw [spelled] at epilogueSame
    exact epilogueText_kept some epilogueSame
  rw [written] at dropped looped epilogueSame
  have atParts : (envelopeMessage header boundary preamble parts epilogue).drop (cur + 2) =
      partsLayout boundary parts ++ epilogue := by
    rw [← List.drop_drop, dropped]
    rfl
  have enough : parts.length ≤ (envelopeMessage header boundary preamble parts epilogue).length + 1 := by
    have lengths := congrArg List.length atParts
    have counted := partsLayout_length boundary parts
    rw [List.length_drop, List.length_append] at lengths
    omega
  obtain ⟨next, position, rest⟩ := partLoop_position free nonempty ok atParts
    (plainAfterLF_of_lines free epilogueUnstarted) enough
  rw [skipBlankLines_layout nonempty ok dropped, position, Except.ok.injEq] at looped
  rw [← looped] at epilogueSame
  exact epilogueText_shorter some rest epilogueSame

include free nonempty ok unstarted in
theorem envelope_returned (kept : KeptPreamble boundary preamble) :
    ∃ body, mailmimeMultipartBodyParse .ok stray (envelopeMessage header boundary preamble parts []) boundary
      header.length = .ok body ∧ body.preamble = preamble ∧ body.epilogue = [] := by
  obtain ⟨cur, dropped, opened⟩ := mailmimeMultipartBodyParse_opened stray parts header free unstarted kept []
  have atParts : (envelopeMessage header boundary preamble parts []).drop (cur + 2) =
      partsLayout boundary parts ++ [] := by
    rw [← List.drop_drop, dropped]
    rfl
  have enough : parts.length ≤ (envelopeMessage header boundary preamble parts []).length + 1 := by
    have lengths := congrArg List.length atParts
    have counted := partsLayout_length boundary parts
    rw [List.length_drop, List.length_append] at lengths
    omega
  have inert : plainAfterLF boundary (LF :: []) = false := by
    simp [plainAfterLF, plainHere, delimiter]
  obtain ⟨next, position, rest⟩ := partLoop_position free nonempty ok atParts inert enough
  rw [skipBlankLines_layout nonempty ok dropped, position] at opened
  refine ⟨_, opened, rfl, ?_⟩
  have nothing : blankLine [] = none := rfl
  simp only [nothing, Option.getD_none, Nat.add_zero, epilogueText_eq, rest]

end Envelope

/-- Preamble and epilogue survive, and what follows the close delimiter is inert,
exactly when the preamble is text that is written as it is and none of its later lines
is a delimiter behind one octet, there is no epilogue, and no plain delimiter line
follows. -/
theorem mailmimeMultipartBodyParse_envelope (stray : Nat → UInt8) (header : List UInt8)
    {boundary preamble epilogue : List UInt8} {parts : List (List UInt8)} (free : BreakFree boundary)
    (nonempty : parts ≠ []) (ok : ∀ part ∈ parts, LayoutPart boundary part)
    (preambleUnstarted : ∀ line ∈ splitLines preamble, (delimiter boundary).isPrefixOf line = false)
    (epilogueUnstarted : ∀ line ∈ splitLines epilogue, (delimiter boundary).isPrefixOf line = false)
    (extra : List UInt8) :
    EnvelopeKept stray header boundary preamble parts epilogue extra ↔
      KeptText preamble ∧ (∀ line ∈ (splitLines preamble).tail, shiftedDelimiter boundary line = false) ∧
        epilogue = [] ∧ plainAfterLF boundary (LF :: extra) = false := by
  have withExtra : header ++ envelopeLayout boundary (some preamble) parts none ++ extra =
      envelopeMessage header boundary preamble parts extra := by
    simp [envelopeLayout, envelopeMessage]
  have without : header ++ envelopeLayout boundary (some preamble) parts none =
      envelopeMessage header boundary preamble parts [] := envelopeMessage_layout _ _ _ _ none
  have nothing : plainAfterLF boundary (LF :: []) = false := by
    simp [plainAfterLF, plainHere, delimiter]
  constructor
  · intro whole
    obtain ⟨kept, none⟩ :=
      whole.preamble_epilogue stray header free nonempty ok preambleUnstarted epilogueUnstarted
    have inert := whole.inert
    rw [withExtra, without,
      (mailmimeMultipartBodyParse_extra stray header free nonempty ok preambleUnstarted kept []).mpr nothing] at inert
    exact ⟨kept.kept, kept.unshifted, none,
      (mailmimeMultipartBodyParse_extra stray header free nonempty ok preambleUnstarted kept extra).mp inert⟩
  · rintro ⟨keptText, unshifted, rfl, inert⟩
    have kept : KeptPreamble boundary preamble := ⟨keptText, unshifted⟩
    have same := mailmimeMultipartBodyParse_extra stray header free nonempty ok preambleUnstarted kept
    constructor
    · have empty : (some []).elim [] writtenText = [] := by decide
      rw [envelopeMessage_layout, empty]
      exact envelope_returned stray header free nonempty ok preambleUnstarted kept
    · rw [withExtra, without, (same extra).mpr inert, (same []).mpr nothing]

theorem mailmimeMultipartBodyParse_envelope_plain :
    EnvelopeKept (fun _ => 0) [] [ascii 'b'] [ascii 'p', CR, LF, ascii '-'] [[ascii 'x']] []
      [ascii '-', ascii '-', ascii 'b', ascii 'c', CR, LF] := by
  have ok : ∀ part ∈ [[ascii 'x']], LayoutPart [ascii 'b'] part := by
    intro part member
    have single : part = [ascii 'x'] := by simpa using member
    subst single
    exact ⟨by decide, by decide, by decide⟩
  have kept : KeptText [ascii 'p', CR, LF, ascii '-'] := (writtenText_eq_self_iff _).mp (by decide)
  exact (mailmimeMultipartBodyParse_envelope (fun _ => 0) [] (by decide) (by decide) ok (by decide) (by decide) _).mpr
    ⟨kept, by decide, rfl, by decide⟩

/-- An epilogue is lost, a preamble ends before a line that is a delimiter behind one
octet, and a plain delimiter line after the close delimiter adds to the last part. -/
theorem mailmimeMultipartBodyParse_envelope_lost :
    ¬ EnvelopeKept (fun _ => 0) [] [ascii 'b'] [ascii 'p'] [[ascii 'x']] [ascii 'e'] [] ∧
    ¬ EnvelopeKept (fun _ => 0) [] [ascii 'b'] [ascii 'p', CR, LF, ascii 'q', ascii '-', ascii '-', ascii 'b']
      [[ascii 'x']] [] [] ∧
    ¬ EnvelopeKept (fun _ => 0) [] [ascii 'b'] [ascii 'p'] [[ascii 'x']] []
      [ascii '-', ascii '-', ascii 'b', CR, LF, ascii 'y'] := by
  refine ⟨fun whole => ?_, fun whole => ?_, fun whole => ?_⟩
  · have lost : (mailmimeMultipartBodyParse .ok (fun _ => 0)
        ([] ++ envelopeLayout [ascii 'b'] (some [ascii 'p']) [[ascii 'x']] (some [ascii 'e'])) [ascii 'b'] 0).map
        MultipartBody.epilogue = .ok [] := by decide
    obtain ⟨body, parsed, -, same⟩ := whole.returned
    rw [List.length_nil] at parsed
    rw [parsed] at lost
    simp [Except.map, same] at lost
  · have cut : (mailmimeMultipartBodyParse .ok (fun _ => 0)
        ([] ++ envelopeLayout [ascii 'b'] (some [ascii 'p', CR, LF, ascii 'q', ascii '-', ascii '-', ascii 'b'])
          [[ascii 'x']] (some [])) [ascii 'b'] 0).map MultipartBody.preamble =
        .ok [ascii 'p', CR, LF, ascii 'q'] := by decide
    obtain ⟨body, parsed, same, -⟩ := whole.returned
    rw [List.length_nil] at parsed
    rw [parsed] at cut
    simp [Except.map, same] at cut
  · have differ : (mailmimeMultipartBodyParse .ok (fun _ => 0)
          ([] ++ envelopeLayout [ascii 'b'] (some [ascii 'p']) [[ascii 'x']] none ++
            [ascii '-', ascii '-', ascii 'b', CR, LF, ascii 'y']) [ascii 'b'] 0).map MultipartBody.parts ≠
        (mailmimeMultipartBodyParse .ok (fun _ => 0)
          ([] ++ envelopeLayout [ascii 'b'] (some [ascii 'p']) [[ascii 'x']] none) [ascii 'b'] 0).map
          MultipartBody.parts := by decide
    exact differ whole.inert

end Etpan.Mime
