import Etpan.Nntp.Overview
import Etpan.Pop3.Bookkeeping

namespace Etpan.Nntp

open Etpan.Data Etpan.Stream Etpan.Pop3

/-! When the overview of a range is complete. -/

def values (raw : Line) : List Line := (cString (removeTrailingEol raw)).splitOn TAB

def endLike (raw : Line) : Bool := mailstreamIsEndMultiline (removeTrailingEol raw)

def Terminates (raw : Line) : Prop := raw.getLast? = some LF ∧ endLike raw = true

def Numeral (field : Line) : Prop := field ≠ [] ∧ ∀ byte ∈ field, isDigit byte = true

/-- A number with room for it is held as it is. -/
def NumberHeld (field : Line) (held room : Nat) : Prop := Numeral field → decimalValue field < room → held = decimalValue field

def Holds : List Line → XoverRespItem → Prop
  | article :: subject :: author :: date :: messageId :: references :: size :: lineCount :: others, item =>
      (item.ovrSubject = subject ∧ item.ovrAuthor = author ∧ item.ovrDate = date ∧ item.ovrMessageId = messageId ∧
        item.ovrReferences = references ∧ item.ovrOthers = others) ∧
      NumberHeld article item.ovrArticle.toNat (2 ^ 32) ∧ NumberHeld size item.ovrSize.toNat (2 ^ 64) ∧
      NumberHeld lineCount item.ovrLineCount.toNat (2 ^ 32)
  | _, _ => False

/-- The size of an overview line is below 2^31, or the largest there is. -/
def SizeFits (raw : Line) : Prop := 8 ≤ (values raw).length → ∀ size ∈ (values raw)[6]?, Numeral size → decimalValue size < 2 ^ 64 →
  decimalValue size < 2 ^ 31 ∨ decimalValue size = 2 ^ 64 - 1

section Numbers

variable {field : Line}

theorem strtol_numeral (numeral : Numeral field) : strtol field = min (decimalValue field : Int) (2 ^ 63 - 1) := by
  obtain ⟨nonempty, digits⟩ := numeral
  obtain ⟨first, others, rfl⟩ := List.exists_cons_of_ne_nil nonempty
  have plain : ∀ byte, isDigit byte = true → isSpace byte = false ∧ byte ≠ ascii '-' ∧ byte ≠ ascii '+' := forall_octet (by decide +kernel)
  obtain ⟨noSpace, noMinus, noPlus⟩ := plain first (digits first List.mem_cons_self)
  have scanned : scanInteger (first :: others) = some (false, first :: others, []) := by
    have unspaced : (first :: others).dropWhile isSpace = first :: others := List.dropWhile_cons_of_neg (by rw [noSpace]; exact Bool.false_ne_true)
    have taken : (first :: others).takeWhile isDigit = first :: others := List.takeWhile_eq_self_iff.mpr digits
    have dropped : (first :: others).dropWhile isDigit = [] := List.dropWhile_eq_nil_iff.mpr digits
    rw [scanInteger, unspaced]
    simp [taken, dropped, noMinus, noPlus]
  rw [strtol, scanned]
  simp only [Bool.false_eq_true, if_false]
  omega

theorem atoi_numeral (numeral : Numeral field) : atoi field = (min (decimalValue field : Int) (2 ^ 63 - 1)).bmod (2 ^ 32) := by
  rw [atoi, strtol_numeral numeral]

theorem toNat_ofInt32 (number : Int) : (UInt32.ofInt number).toNat = (number % 2 ^ 32).toNat := by
  rw [UInt32.ofInt, UInt32.toNat_ofNat']
  omega

theorem toNat_ofInt64 (number : Int) : (UInt64.ofInt number).toNat = (number % 2 ^ 64).toNat := by
  rw [UInt64.ofInt, UInt64.toNat_ofNat']
  omega

theorem atoi_uint32 : NumberHeld field (UInt32.ofInt (atoi field)).toNat (2 ^ 32) := by
  intro numeral fits
  rw [atoi_numeral numeral, toNat_ofInt32, Int.bmod_eq_emod]
  generalize decimalValue field = value at fits
  push_cast
  split_ifs <;> omega

theorem atoi_uint64 : NumberHeld field (UInt64.ofInt (atoi field)).toNat (2 ^ 64) ↔
    (Numeral field → decimalValue field < 2 ^ 64 → decimalValue field < 2 ^ 31 ∨ decimalValue field = 2 ^ 64 - 1) := by
  have same : Numeral field → decimalValue field < 2 ^ 64 →
      ((UInt64.ofInt (atoi field)).toNat = decimalValue field ↔ decimalValue field < 2 ^ 31 ∨ decimalValue field = 2 ^ 64 - 1) := by
    intro numeral fits
    rw [atoi_numeral numeral, toNat_ofInt64, Int.bmod_eq_emod]
    generalize decimalValue field = value at fits
    push_cast
    split_ifs <;> omega
  exact forall_congr' fun numeral => forall_congr' fun fits => same numeral fits

end Numbers

section Items

def itemsOf (raw : Line) : List XoverRespItem := (overviewItem (removeTrailingEol raw)).toList

theorem overviewItem_short {raw : Line} (short : (values raw).length < 8) : overviewItem (removeTrailingEol raw) = none := by
  rw [overviewItem, ← values]
  split
  · next spelled =>
      rw [spelled] at short
      simp only [List.length_cons] at short
      omega
  · rfl

theorem overviewItem_long {raw : Line} (long : 8 ≤ (values raw).length) :
    ∃ item, overviewItem (removeTrailingEol raw) = some item ∧ (Holds (values raw) item ↔ SizeFits raw) := by
  match spelled : values raw with
  | article :: subject :: author :: date :: messageId :: references :: size :: lineCount :: others =>
      have split_ := spelled
      rw [values] at split_
      rw [overviewItem, split_]
      refine ⟨_, rfl, ?_⟩
      have sizeValue : (values raw)[6]? = some size := by rw [spelled]; rfl
      simp only [Holds, SizeFits, sizeValue, Option.mem_def, Option.some.injEq, forall_eq', long, true_imp_iff, atoi_uint32, atoi_uint64, true_and,
        and_true]
  | [] | [_] | [_, _] | [_, _, _] | [_, _, _, _] | [_, _, _, _, _] | [_, _, _, _, _, _] | [_, _, _, _, _, _, _] =>
      rw [spelled] at long
      simp only [List.length_cons, List.length_nil] at long
      omega

theorem items_hold_iff (overview : List Line) :
    List.Forall₂ Holds ((overview.map values).filter fun fields => 8 ≤ fields.length) (overview.flatMap itemsOf) ↔ ∀ raw ∈ overview, SizeFits raw := by
  induction overview with
  | nil => simp only [List.map_nil, List.filter_nil, List.flatMap_nil, List.Forall₂.nil, List.not_mem_nil, false_imp_iff, implies_true]
  | cons raw overview ih =>
      rw [List.map_cons, List.flatMap_cons, List.forall_mem_cons, ← ih, itemsOf]
      by_cases long : 8 ≤ (values raw).length
      · obtain ⟨item, isItem, holds⟩ := overviewItem_long long
        rw [List.filter_cons_of_pos (by simpa using long), isItem, ← holds]
        exact List.forall₂_cons
      · have fits : SizeFits raw := fun eight => absurd eight long
        rw [List.filter_cons_of_neg (by simpa using long), overviewItem_short (Nat.lt_of_not_le long)]
        simp only [Option.toList_none, List.nil_append, fits, true_and]

end Items

section Loop

variable {s : Mailstream} {bytes : List UInt8} {fails : Bool}

theorem complete_of_followed {before rest : List Line} {raw next : Line} (lines : rawLines bytes = before ++ raw :: next :: rest) :
    raw.getLast? = some LF := by
  generalize size : bytes.length = length
  induction length using Nat.strongRecOn generalizing bytes before with
  | ind length ih =>
      rcases line_or_partial bytes with ⟨content, behind, noLF, rfl⟩ | noLF
      · rw [rawLines_line noLF] at lines
        cases before with
        | nil =>
            rw [List.nil_append, List.cons.injEq] at lines
            rw [← lines.1, List.getLast?_append]
            rfl
        | cons first before =>
            rw [List.cons_append, List.cons.injEq] at lines
            refine ih behind.length ?_ lines.2 rfl
            rw [← size, List.length_append, List.length_cons]
            omega
      · have few : (rawLines bytes).length ≤ 1 := by
          by_cases nothing : bytes = []
          · rw [nothing]
            exact Nat.zero_le 1
          · rw [rawLines_unended noLF nothing]
            exact Nat.le_refl 1
        rw [lines, List.length_append, List.length_cons, List.length_cons] at few
        omega

theorem cut_eq {kind : Line → Bool} {before before' rest rest' : List Line} {raw raw' : Line}
    (same : before ++ raw :: rest = before' ++ raw' :: rest') (none_ : ∀ line ∈ before, kind line = false) (isKind : kind raw = true)
    (none' : ∀ line ∈ before', kind line = false) (isKind' : kind raw' = true) : before = before' ∧ raw = raw' := by
  have front : ∀ (lines more : List Line) {line : Line}, (∀ other ∈ lines, kind other = false) → kind line = true →
      (lines ++ line :: more).takeWhile (fun line => !kind line) = lines := by
    intro lines more line others isLine
    rw [List.takeWhile_append_of_pos (fun other member => by rw [others other member]; rfl),
      List.takeWhile_cons_of_neg (by rw [isLine]; exact Bool.false_ne_true), List.append_nil]
  have first := front before rest none_ isKind
  rw [same, front before' rest' none' isKind'] at first
  subst first
  exact ⟨rfl, (List.cons.inj (List.append_cancel_left same)).1⟩

theorem endLike_nil : endLike [] = false := by decide

/-- How the loop ends: at the first line that is taken for the end, or with NULL where the stream fails before it. -/
theorem overviewLoop_result {rounds : Nat} {collected : List XoverRespItem} {result : Option (List XoverRespItem) × Mailstream}
    (answers : Answers s bytes fails)
    (ended : loop (readXoverRespRound mailstreamReadLineRemoveEol) rounds (s, collected) = some result) :
    (∃ overview last rest, rawLines bytes = overview ++ last :: rest ∧ (∀ raw ∈ overview, endLike raw = false) ∧ endLike last = true ∧
      (fails = true → last.getLast? = some LF) ∧ result.1 = some (collected ++ overview.flatMap itemsOf)) ∨
    (fails = true ∧ result.1 = none ∧ ∀ raw ∈ rawLines bytes, raw.getLast? = some LF → endLike raw = false) := by
  induction rounds generalizing s bytes collected with
  | zero => cases ended
  | succ rounds ih =>
      rw [loop, readXoverRespRound] at ended
      rcases line_or_partial bytes with ⟨content, behind, noLF, rfl⟩ | noLF
      · obtain ⟨after, read, left⟩ := answers.line noLF
        have complete : (content ++ [LF]).getLast? = some LF := by
          rw [List.getLast?_append]
          rfl
        rw [rawLines_line noLF]
        rw [read] at ended
        dsimp only at ended
        cases isEnd : endLike (content ++ [LF]) with
        | true =>
            rw [endLike] at isEnd
            rw [isEnd] at ended
            cases ended
            refine .inl ⟨[], content ++ [LF], rawLines behind, rfl, fun raw member => absurd member List.not_mem_nil, isEnd,
              fun _ => complete, ?_⟩
            rw [List.flatMap_nil, List.append_nil]
        | false =>
            have goesOn := isEnd
            rw [endLike] at goesOn
            rw [goesOn] at ended
            rcases ih left ended with ⟨overview, last, rest, lines, none_, isLast, whole, list⟩ | ⟨failed, noList, none_⟩
            · refine .inl ⟨(content ++ [LF]) :: overview, last, rest, by rw [lines, List.cons_append], ?_, isLast, whole, ?_⟩
              · exact List.forall_mem_cons.mpr ⟨isEnd, none_⟩
              · rw [list, List.flatMap_cons, List.append_assoc, itemsOf]
            · exact .inr ⟨failed, noList, List.forall_mem_cons.mpr ⟨fun _ => isEnd, none_⟩⟩
      · have partialLines : ∀ raw ∈ rawLines bytes, raw = bytes := by
          intro raw member
          by_cases nothing : bytes = []
          · rw [nothing] at member
            cases member
          · rw [rawLines_unended noLF nothing] at member
            exact List.mem_singleton.mp member
        cases fails with
        | true =>
            have lost := answers.lost noLF
            cases read : mailstreamReadLineRemoveEol s with
            | mk line after =>
                rw [read] at lost ended
                dsimp only at lost
                subst lost
                cases ended
                refine .inr ⟨rfl, rfl, fun raw member complete => ?_⟩
                rw [partialLines raw member] at complete
                exact absurd (List.mem_of_getLast? complete) noLF
        | false =>
            obtain ⟨after, read, left⟩ := answers.ended noLF
            rw [read] at ended
            dsimp only at ended
            cases isEnd : endLike bytes with
            | true =>
                have nonempty : bytes ≠ [] := by
                  rintro rfl
                  rw [endLike_nil] at isEnd
                  cases isEnd
                have isLast := isEnd
                rw [endLike] at isEnd
                rw [isEnd] at ended
                cases ended
                refine .inl ⟨[], bytes, [], rawLines_unended noLF nonempty, fun raw member => absurd member List.not_mem_nil, isLast,
                  Bool.noConfusion, ?_⟩
                rw [List.flatMap_nil, List.append_nil]
            | false =>
                rw [endLike] at isEnd
                rw [isEnd] at ended
                -- From then on every line is empty.
                rcases ih left ended with ⟨overview, last, rest, lines, -⟩ | ⟨failed, -⟩
                · rw [rawLines] at lines
                  exact absurd lines.symm (List.append_ne_nil_of_right_ne_nil _ (List.cons_ne_nil _ _))
                · cases failed

theorem overviewLoop_ends {collected : List XoverRespItem} (answers : Answers s bytes fails)
    (ends : fails = true ∨ ∃ raw ∈ rawLines bytes, endLike raw = true) :
    ∃ rounds result, loop (readXoverRespRound mailstreamReadLineRemoveEol) rounds (s, collected) = some result := by
  generalize size : bytes.length = length
  induction length using Nat.strongRecOn generalizing s bytes collected with
  | ind length ih =>
      rcases line_or_partial bytes with ⟨content, behind, noLF, rfl⟩ | noLF
      · obtain ⟨after, read, left⟩ := answers.line noLF
        cases isEnd : endLike (content ++ [LF]) with
        | true =>
            rw [endLike] at isEnd
            exact ⟨1, (some collected, after), by simp only [loop, readXoverRespRound, read, isEnd, if_true]⟩
        | false =>
            have later : fails = true ∨ ∃ raw ∈ rawLines behind, endLike raw = true := by
              rcases ends with failed | ⟨raw, member, isLast⟩
              · exact .inl failed
              · rw [rawLines_line noLF] at member
                rcases List.mem_cons.mp member with rfl | member
                · rw [isEnd] at isLast
                  cases isLast
                · exact .inr ⟨raw, member, isLast⟩
            rw [endLike] at isEnd
            have shorter : behind.length < length := by
              rw [← size, List.length_append, List.length_cons]
              omega
            obtain ⟨rounds, result, ended⟩ :=
              @ih behind.length shorter after behind (collected ++ (overviewItem (removeTrailingEol (content ++ [LF]))).toList) left later rfl
            exact ⟨rounds + 1, result, by simpa only [loop, readXoverRespRound, read, isEnd, Bool.false_eq_true, if_false] using ended⟩
      · cases fails with
        | true =>
            have lost := answers.lost noLF
            cases read : mailstreamReadLineRemoveEol s with
            | mk line after =>
                rw [read] at lost
                dsimp only at lost
                subst lost
                exact ⟨1, (none, after), by simp only [loop, readXoverRespRound, read]⟩
        | false =>
            rcases ends with failed | ⟨raw, member, isLast⟩
            · cases failed
            · have nonempty : bytes ≠ [] := by
                rintro rfl
                cases member
              rw [rawLines_unended noLF nonempty, List.mem_singleton] at member
              subst member
              obtain ⟨after, read, -⟩ := answers.ended noLF
              rw [endLike] at isLast
              exact ⟨1, (some collected, after), by simp only [loop, readXoverRespRound, read, isLast, if_true]⟩

end Loop

structure Server where
  stream : Mailstream
  bytes : List UInt8
  fails : Bool
  answers : Answers stream bytes fails

def overviewCall (server : Server) (rounds : Nat) (response : Option Line) (rangeinf rangesup : UInt32) :
    Option ((NewsnntpError × Option (Option (List XoverRespItem))) × Newsnntp Mailstream) :=
  newsnntpXoverRange mailstreamWrite mailstreamFlush mailstreamReadLineRemoveEol rounds ⟨server.stream, response⟩ rangeinf rangesup

def unsignedCommand (rangeinf rangesup : UInt32) : List UInt8 :=
  asciiText "XOVER " ++ decimal rangeinf.toNat ++ ascii '-' :: decimal rangesup.toNat ++ [CR, LF]

/-- The command names both numbers, and a success comes with the items of all lines behind the status line 224 and before the
line that ends them. -/
structure CompleteOverview (server : Server) (rangeinf rangesup : UInt32) : Prop where
  sends : ∀ {σ : Type} (write : Write σ) (flush : σ → Int × σ) (s : σ),
    (sendCommand (recording write) (recordingFlush flush) (s, []) (xoverRangeCommand rangeinf rangesup)).2.2 = unsignedCommand rangeinf rangesup
  list : ∀ {rounds response result after}, overviewCall server rounds response rangeinf rangesup = some ((.noError, result), after) →
    ∃ status overview last rest list, rawLines server.bytes = status :: (overview ++ last :: rest) ∧
      (parseResponse (removeTrailingEol status)).1 = 224 ∧ (∀ raw ∈ overview, ¬ Terminates raw) ∧ Terminates last ∧ result = some (some list) ∧
      List.Forall₂ Holds ((overview.map values).filter fun fields => 8 ≤ fields.length) list

/-- The end of the overview arrives, and the sizes before it are below 2^31; or the connection comes to its end, and the call does not. -/
def Ends (server : Server) (lines : List Line) : Prop :=
  (∃ overview last rest, lines = overview ++ last :: rest ∧ (∀ raw ∈ overview, ¬ Terminates raw) ∧ Terminates last ∧
    ∀ raw ∈ overview, SizeFits raw) ∨
  (server.fails = false ∧ ∀ raw ∈ lines, endLike raw = false)

section Call

variable {server : Server} {rangeinf rangesup : UInt32}

theorem decimal_ne_minus (number other : Nat) (behind more : List UInt8) : ascii '-' :: (decimal number ++ behind) ≠ decimal other ++ more := by
  intro same
  obtain ⟨digit, digits, spelled⟩ := List.exists_cons_of_ne_nil (decimal_ne_nil other)
  rw [spelled, List.cons_append, List.cons.injEq] at same
  have isDigit_ : isDigit digit = true := decimal_digits digit (by rw [spelled]; exact List.mem_cons_self)
  rw [← same.1] at isDigit_
  cases isDigit_

theorem xoverRangeCommand_eq (rangeinf rangesup : UInt32) :
    xoverRangeCommand rangeinf rangesup = asciiText "XOVER " ++ signedDecimal rangeinf ++ ascii '-' :: signedDecimal rangesup ++ [CR, LF] := by
  have first := signedDecimal_length rangeinf
  have second := signedDecimal_length rangesup
  rw [xoverRangeCommand, snprintf, List.take_of_length_le]
  simp only [List.length_append, List.length_cons, List.length_nil, NNTP_STRING_SIZE]
  have word : (asciiText "XOVER ").length = 6 := by decide
  omega

theorem xoverRangeCommand_string (rangeinf rangesup : UInt32) :
    cString (xoverRangeCommand rangeinf rangesup) = xoverRangeCommand rangeinf rangesup := by
  have word : NulFree (asciiText "XOVER ") := by decide
  have dash : NulFree [ascii '-'] := by decide
  have break_ : NulFree [CR, LF] := by decide
  rw [xoverRangeCommand_eq]
  exact cString_eq_self (((word.append (signedDecimal_nulFree rangeinf)).append (dash.append (signedDecimal_nulFree rangesup))).append break_)

theorem sendCommand_sends {σ : Type} (write : Write σ) (flush : σ → Int × σ) (s : σ) (command : List UInt8) :
    (sendCommand (recording write) (recordingFlush flush) (s, []) command).2.2 = cString command := by
  simp only [sendCommand]
  split_ifs
  all_goals simp [recording, recordingFlush]

theorem command_iff : xoverRangeCommand rangeinf rangesup = unsignedCommand rangeinf rangesup ↔
    rangeinf.toNat < 2 ^ 31 ∧ rangesup.toNat < 2 ^ 31 := by
  have positive : ∀ {number : UInt32}, number.toNat < 2 ^ 31 → signedDecimal number = decimal number.toNat := fun small => if_pos small
  have negative : ∀ {number : UInt32}, ¬ number.toNat < 2 ^ 31 → signedDecimal number = ascii '-' :: decimal (2 ^ 32 - number.toNat) :=
    fun large => if_neg large
  rw [xoverRangeCommand_eq, unsignedCommand]
  constructor
  · intro same
    simp only [List.append_assoc, List.append_cancel_left_eq] at same
    by_cases first : rangeinf.toNat < 2 ^ 31
    · refine ⟨first, ?_⟩
      by_contra second
      rw [positive first, negative second] at same
      simp only [List.append_cancel_left_eq, List.cons_append, List.cons.injEq, true_and] at same
      exact decimal_ne_minus _ _ _ _ same
    · rw [negative first, List.cons_append] at same
      exact absurd same (decimal_ne_minus _ _ _ _)
  · rintro ⟨first, second⟩
    rw [positive first, positive second]

theorem sends_iff : (∀ {σ : Type} (write : Write σ) (flush : σ → Int × σ) (s : σ),
    (sendCommand (recording write) (recordingFlush flush) (s, []) (xoverRangeCommand rangeinf rangesup)).2.2 = unsignedCommand rangeinf rangesup) ↔
    rangeinf.toNat < 2 ^ 31 ∧ rangesup.toNat < 2 ^ 31 := by
  rw [← command_iff]
  constructor
  · intro sends
    have sent := sends (fun (_ : Unit) buf => (buf.length, ())) (fun _ => (0, ())) ()
    rwa [sendCommand_sends, xoverRangeCommand_string] at sent
  · intro same σ write flush s
    rw [sendCommand_sends, xoverRangeCommand_string, same]

variable {s : Mailstream} {bytes : List UInt8} {fails : Bool} {status : Line} {lines : List Line}

theorem status_read (answers : Answers s bytes fails) (spelled : rawLines bytes = status :: lines)
    (whole : fails = true → status.getLast? = some LF) :
    ∃ after behind, mailstreamReadLineRemoveEol s = (some (removeTrailingEol status), after) ∧ Answers after behind fails ∧
      rawLines behind = lines := by
  rcases line_or_partial bytes with ⟨content, behind, noLF, rfl⟩ | noLF
  · rw [rawLines_line noLF, List.cons.injEq] at spelled
    obtain ⟨rfl, rfl⟩ := spelled
    obtain ⟨after, read, left⟩ := answers.line noLF
    exact ⟨after, behind, read, left, rfl⟩
  · have nonempty : bytes ≠ [] := by
      rintro rfl
      cases spelled
    rw [rawLines_unended noLF nonempty, List.cons.injEq] at spelled
    obtain ⟨rfl, rfl⟩ := spelled
    cases fails with
    | true => exact absurd (List.mem_of_getLast? (whole rfl)) noLF
    | false =>
        obtain ⟨after, read, left⟩ := answers.ended noLF
        exact ⟨after, [], read, left, rfl⟩

theorem status_of_read {line : Line} {after : Mailstream} (answers : Answers s bytes fails)
    (read : mailstreamReadLineRemoveEol s = (some line, after)) :
    line = [] ∨ ∃ status lines, rawLines bytes = status :: lines ∧ (fails = true → status.getLast? = some LF) ∧ line = removeTrailingEol status := by
  rcases line_or_partial bytes with ⟨content, behind, noLF, rfl⟩ | noLF
  · obtain ⟨after', read', -⟩ := answers.line noLF
    rw [read] at read'
    cases read'
    refine .inr ⟨content ++ [LF], rawLines behind, rawLines_line noLF behind, fun _ => ?_, rfl⟩
    rw [List.getLast?_append]
    rfl
  · cases fails with
    | true =>
        have lost := answers.lost noLF
        rw [read] at lost
        cases lost
    | false =>
        obtain ⟨after', read', -⟩ := answers.ended noLF
        rw [read] at read'
        cases read'
        by_cases nothing : bytes = []
        · rw [nothing]
          exact .inl rfl
        · exact .inr ⟨bytes, [], rawLines_unended noLF nothing, Bool.noConfusion, rfl⟩

theorem xoverResp_noError {f after : Newsnntp Mailstream} {rounds : Nat} {result : Option (Option (List XoverRespItem))}
    (answers : Answers f.nntpStream bytes fails)
    (ended : newsnntpXoverResp mailstreamReadLineRemoveEol rounds f = some ((.noError, result), after)) :
    ∃ status lines middle behind list, rawLines bytes = status :: lines ∧ (fails = true → status.getLast? = some LF) ∧
      (parseResponse (removeTrailingEol status)).1 = 224 ∧ Answers middle behind fails ∧ rawLines behind = lines ∧
      loop (readXoverRespRound mailstreamReadLineRemoveEol) rounds (middle, []) = some list ∧ result = some list.1 := by
  rw [newsnntpXoverResp] at ended
  cases read : mailstreamReadLineRemoveEol f.nntpStream with
  | mk line middle =>
      rw [read] at ended
      cases line with
      | none => cases ended
      | some line =>
          dsimp only at ended
          have code : (parseResponse line).1 = 224 ∧ ∃ list, loop (readXoverRespRound mailstreamReadLineRemoveEol) rounds (middle, []) = some list ∧
              result = some list.1 := by
            split_ifs at ended with is480 is381 is224
            · cases ended
            · cases ended
            · obtain ⟨⟨list, left⟩, looped, same⟩ := Option.map_eq_some_iff.mp ended
              cases same
              exact ⟨is224, (list, left), looped, rfl⟩
            all_goals cases ended
          obtain ⟨is224, list, looped, same⟩ := code
          rcases status_of_read answers read with rfl | ⟨status, lines, spelled, whole, rfl⟩
          · exact absurd is224 (by decide)
          · obtain ⟨after', behind, read', left, rest⟩ := status_read answers spelled whole
            rw [read] at read'
            cases read'
            exact ⟨status, lines, middle, behind, list, spelled, whole, is224, left, rest, looped, same⟩

theorem xoverResp_224 {f : Newsnntp Mailstream} {rounds : Nat} {middle : Mailstream} {line : Line} {list : Option (List XoverRespItem) × Mailstream}
    (read : mailstreamReadLineRemoveEol f.nntpStream = (some line, middle)) (is224 : (parseResponse line).1 = 224)
    (looped : loop (readXoverRespRound mailstreamReadLineRemoveEol) rounds (middle, []) = some list) :
    newsnntpXoverResp mailstreamReadLineRemoveEol rounds f = some ((.noError, some list.1), ⟨list.2, some (parseResponse line).2⟩) := by
  rw [newsnntpXoverResp, read]
  dsimp only
  rw [if_neg (by rw [is224]; decide), if_neg (by rw [is224]; decide), if_pos is224, readXoverRespList, looped]
  rfl

theorem overview_eq {bytes : List UInt8} {overview rest overview' rest' : List Line} {last last' : Line}
    (spelled : rawLines bytes = status :: (overview ++ last :: rest)) (none_ : ∀ raw ∈ overview, ¬ Terminates raw) (isLast : Terminates last)
    (spelled' : overview ++ last :: rest = overview' ++ last' :: rest') (none' : ∀ raw ∈ overview', endLike raw = false)
    (isLast' : endLike last' = true) : overview = overview' := by
  have notLike : ∀ raw ∈ overview, endLike raw = false := by
    intro raw member
    obtain ⟨before, behind, rfl⟩ := List.append_of_mem member
    -- The line has its line end, for another follows.
    have followed : ∃ next more, behind ++ last :: rest = next :: more := by
      cases behind with
      | nil => exact ⟨last, rest, rfl⟩
      | cons next more => exact ⟨next, more ++ last :: rest, rfl⟩
    obtain ⟨next, more, isNext⟩ := followed
    have complete : raw.getLast? = some LF := by
      rw [List.append_assoc, List.cons_append, isNext, ← List.cons_append] at spelled
      exact complete_of_followed spelled
    have other := none_ raw member
    rw [Terminates, not_and] at other
    exact Bool.eq_false_iff.mpr (other complete)
  exact (cut_eq spelled' notLike isLast.2 none' isLast').1

end Call

/-- A server whose connection fails in the first overview line. -/
def failingServer : Server where
  stream :=
    { readBuffer := []
      writeBuffer := []
      bufferMaxSize := 8192
      low := { reads := [.bytes (asciiText "224 \r\n1\t"), .error], writes := [11] }
      positive := bufferSize_pos
      readFits := nothing_fits
      writeFits := nothing_fits }
  bytes := asciiText "224 \r\n1\t"
  fails := true
  answers := .fails ⟨[asciiText "224 \r\n1\t"], by decide, rfl, by decide⟩

end Etpan.Nntp
