import Etpan.Imap.Parser

namespace Etpan.Imap

open Etpan.Data Etpan.Stream

/-! Literals read from a stream, however it cuts what it delivers. -/

theorem mailimapNumberAddDigit_toNat (number : UInt32) {digit : Nat} (small : digit < 10) :
    (mailimapNumberAddDigit number digit).toNat = min (number.toNat * 10 + digit) 4294967295 := by
  have bound := number.toNat_lt
  rw [mailimapNumberAddDigit, mailimapNumberOverflows]
  by_cases overflows : (4294967295 - digit) / 10 < number.toNat
  · rw [if_pos (by simpa using overflows), min_eq_right (by omega)]
    rfl
  · have notMax : number ≠ 4294967295 := by
      intro isMax
      rw [isMax] at overflows
      change ¬ (4294967295 - digit) / 10 < 4294967295 at overflows
      omega
    rw [if_neg (by simpa using overflows), if_pos notMax, min_eq_left (by omega), UInt32.toNat_add,
      UInt32.toNat_mul, UInt32.toNat_ofNat']
    change (number.toNat * 10 % 4294967296 + digit % 4294967296) % 4294967296 = _
    omega

theorem isDigit_value {byte : UInt8} (digit : isDigit byte = true) : byte.toNat - 48 < 10 := by
  have checked : ∀ byte : UInt8, isDigit byte = true → byte.toNat - 48 < 10 := forall_octet (by decide +kernel)
  exact checked byte digit

def addDecimal (value : Nat) (digit : UInt8) : Nat := value * 10 + (digit.toNat - 48)

theorem addDecimal_large {value : Nat} (digits : List UInt8) (large : 4294967295 ≤ value) :
    4294967295 ≤ digits.foldl addDecimal value := by
  induction digits generalizing value with
  | nil => exact large
  | cons digit digits ih =>
      apply ih
      rw [addDecimal]
      omega

theorem addDecimal_min (value : Nat) (digits : List UInt8) :
    min (digits.foldl addDecimal (min value 4294967295)) 4294967295 =
      min (digits.foldl addDecimal value) 4294967295 := by
  rcases Nat.le_total value 4294967295 with small | large
  · rw [min_eq_left small]
  · rw [min_eq_right large, min_eq_right (addDecimal_large digits (Nat.le_refl _)),
      min_eq_right (addDecimal_large digits large)]

theorem numberDigits_toNat {digits : List UInt8} (number : UInt32) (all : ∀ byte ∈ digits, isDigit byte = true) :
    (digits.foldl (fun number digit => mailimapNumberAddDigit number (digit.toNat - 48)) number).toNat =
      min (digits.foldl addDecimal number.toNat) 4294967295 := by
  induction digits generalizing number with
  | nil =>
      have bound := number.toNat_lt
      rw [List.foldl_nil, List.foldl_nil, min_eq_left (by omega)]
  | cons digit digits ih =>
      rw [List.foldl_cons, List.foldl_cons, ih _ fun byte member => all byte (by simp [member]),
        mailimapNumberAddDigit_toNat _ (isDigit_value (all digit (by simp))), addDecimal_min, addDecimal]

theorem decimal_takeWhile (number : Nat) {rest : List UInt8} (ends : rest.takeWhile isDigit = []) :
    (decimal number ++ rest).takeWhile isDigit = decimal number := by
  rw [List.takeWhile_append_of_pos decimal_digits, ends, List.append_nil]

theorem isDigit_plain {byte : UInt8} (digit : isDigit byte = true) :
    isSpaceOrTab byte = false ∧ byte ≠ ascii '-' := by
  have checked : ∀ byte : UInt8, isDigit byte = true → isSpaceOrTab byte = false ∧ byte ≠ ascii '-' :=
    forall_octet (by decide +kernel)
  exact checked byte digit

theorem mailimapNumberParse_at {buffer rest : List UInt8} {indx number : Nat}
    (at_ : buffer.drop indx = decimal number ++ rest) (ends : rest.takeWhile isDigit = []) :
    mailimapNumberParse buffer indx =
      some (UInt32.ofNat (min number 4294967295), indx + (decimal number).length) := by
  obtain ⟨first, others, digits⟩ := List.exists_cons_of_ne_nil (decimal_ne_nil number)
  have first_digit : isDigit first = true := decimal_digits first (by rw [digits]; simp)
  obtain ⟨visible, notMinus⟩ := isDigit_plain first_digit
  have start : buffer.drop indx = first :: (others ++ rest) := by rw [at_, digits, List.cons_append]
  have value : (decimal number).foldl (fun number digit => mailimapNumberAddDigit number (digit.toNat - 48)) 0 =
      UInt32.ofNat (min number 4294967295) := by
    have total : (decimal number).foldl addDecimal 0 = number := decimalValue_decimal number
    apply UInt32.toNat_inj.mp
    rw [numberDigits_toNat 0 decimal_digits, UInt32.toNat_ofNat', UInt32.toNat_zero, total, Nat.mod_eq_of_lt (by omega)]
  simp only [mailimapNumberParse, skipSpace_at start visible, mailimapCharParse_other start notMinus, Option.getD_none,
    at_, decimal_takeWhile number ends, value, if_neg (decimal_ne_nil number), Option.isSome_none, Bool.false_eq_true,
    if_false]

theorem literalHead_cons (count : Nat) (rest : List UInt8) :
    literalHead false count ++ rest = [ascii '{'] ++ (decimal count ++ ([ascii '}'] ++ ([CR, LF] ++ rest))) := by
  simp [literalHead]

theorem literalHead_length (count : Nat) : (literalHead false count).length = (decimal count).length + 4 := by
  simp [literalHead]

theorem mailimapCrlfParse_at {buffer rest : List UInt8} {indx : Nat} (at_ : buffer.drop indx = [CR, LF] ++ rest) :
    mailimapCrlfParse buffer indx = some (indx + 2) := by
  rw [mailimapCrlfParse, skipSpace_at at_ (by decide), mailimapTokenCaseInsensitiveParse_at at_ (by decide)]
  rfl

theorem literalHeadParse_at {buffer rest : List UInt8} {indx count : Nat}
    (at_ : buffer.drop indx = literalHead false count ++ rest) :
    literalHeadParse buffer indx =
      if mailimapLiteralSizeMax < count then none
      else some (indx + 1, UInt32.ofNat count, indx + (literalHead false count).length) := by
  rw [literalHead_cons] at at_
  have digits := drop_behind at_
  have brace := drop_behind digits
  have crlf := drop_behind brace
  simp only [List.length_singleton] at digits brace crlf
  have number := mailimapNumberParse_at digits (by rfl)
  have value : (UInt32.ofNat (min count 4294967295)).toNat = min count 4294967295 := by
    rw [UInt32.toNat_ofNat', Nat.mod_eq_of_lt (by omega)]
  have large : mailimapLiteralSizeMax < min count 4294967295 ↔ mailimapLiteralSizeMax < count := by
    rw [mailimapLiteralSizeMax]
    omega
  simp only [literalHeadParse, mailimapOaccoladeParse, mailimapUnstrictCharParse_at at_ (by decide), number,
    mailimapCaccoladeParse, mailimapUnstrictCharParse_at brace (by decide), mailimapCrlfParse_at crlf, value,
    Option.bind_eq_bind, Option.bind_some, gt_iff_lt, literalHead_length, large]
  split_ifs with tooLarge
  · rfl
  · have exact_ : min count 4294967295 = count := by
      rw [mailimapLiteralSizeMax] at tooLarge
      omega
    simp only [exact_, Option.some.injEq, Prod.mk.injEq, true_and]
    change indx + 1 + (decimal count).length + 1 + 2 = indx + ((decimal count).length + 4)
    omega

/-- The workaround does not take a part of the content for the end of the answer. -/
def NotCutShort (ctx : ParserContext) (content : List UInt8) : Prop :=
  ctx.isRamblerWorkaroundEnabled = true → ∀ count < content.length, endsLikeRambler (content.take count) = false

theorem readLiteral_whole {ctx : ParserContext} {s : Mailstream} (whole : s.low.Whole) {data more literal : List UInt8}
    (incoming : s.incoming = data ++ more) (uncut : NotCutShort ctx (literal ++ data)) :
    (readLiteral ctx s data.length literal).1 = .ok (literal ++ data) ∧
      Reads s data (readLiteral ctx s data.length literal).2 := by
  generalize needed_eq : data.length = needed
  induction needed using Nat.strongRecOn generalizing s data literal with
  | ind needed ih =>
      rw [readLiteral]
      by_cases done : needed = 0
      · have empty : data = [] := List.length_eq_zero_iff.mp (needed_eq.trans done)
        rw [if_pos done, empty, List.append_nil]
        exact ⟨rfl, rfl, whole.steady, id⟩
      rw [if_neg done]
      obtain ⟨bytes, answered, reads, short, delivers⟩ :=
        mailstreamRead_reads whole.steady (min needed maxReadProgress)
      have asked : 0 < min needed maxReadProgress := lt_min (Nat.pos_of_ne_zero done) (by decide)
      have pending : s.incoming ≠ [] := by
        rw [incoming]
        intro nothing
        have empty := (List.append_eq_nil_iff.mp nothing).1
        rw [empty] at needed_eq
        exact done needed_eq.symm
      obtain ⟨byte, others, rfl⟩ := List.exists_cons_of_ne_nil (delivers whole asked pending)
      -- what was read is a front of the data
      have fits : (byte :: others).length ≤ data.length := by
        rw [needed_eq]
        exact short.trans (min_le_left _ _)
      obtain ⟨rest, data_eq, after⟩ : ∃ rest, data = byte :: others ++ rest ∧
          (mailstreamRead s (min needed maxReadProgress)).2.incoming = rest ++ more := by
        have cut : byte :: others ++ (mailstreamRead s (min needed maxReadProgress)).2.incoming = data ++ more :=
          reads.order.trans incoming
        rcases List.append_eq_append_iff.mp cut with ⟨tail, longer, left⟩ | ⟨tail, shorter, left⟩
        · exact ⟨tail, longer, left⟩
        · have lengths := congrArg List.length shorter
          rw [List.length_append] at lengths
          have none : tail = [] := List.length_eq_zero_iff.mp (by omega)
          rw [none, List.append_nil] at shorter
          rw [none, List.nil_append] at left
          exact ⟨[], by rw [shorter, List.append_nil], by rw [left, List.nil_append]⟩
      have left_eq : needed - (byte :: others).length = rest.length := by
        rw [← needed_eq, data_eq, List.length_append]
        omega
      have kept : ¬ (rest.length > 0 ∧ ctx.isRamblerWorkaroundEnabled = true ∧
          endsLikeRambler (literal ++ byte :: others) = true) := by
        rintro ⟨positive, enabled, looksLike⟩
        have front := uncut enabled (literal ++ byte :: others).length (by
          simp only [data_eq, List.length_append]
          omega)
        rw [data_eq, ← List.append_assoc, List.take_left, looksLike] at front
        cases front
      have later := ih rest.length (by rw [← left_eq, List.length_cons]; omega) (reads.whole whole) after
        (by rw [List.append_assoc, ← data_eq]; exact uncut) rfl
      simp only [answered, left_eq, if_neg kept]
      rw [data_eq, ← List.append_assoc]
      exact ⟨later.1, reads.trans later.2⟩

theorem appendFollowingLine_reads {s : Mailstream} (steady : s.low.Steady) (buffer : List UInt8) (curToken : Nat)
    (literal : List UInt8) :
    ∃ line after, appendFollowingLine ⟨buffer, some s⟩ curToken literal =
        (.ok (literal, curToken), ⟨buffer ++ line, some after⟩) ∧ Reads s line after ∧
      (s.low.Whole → line = takeLine s.incoming) := by
  obtain ⟨line, read, reads, onWhole⟩ := mailstreamReadLineAppend_reads steady buffer
  refine ⟨line, _, ?_, reads, onWhole⟩
  simp only [appendFollowingLine, read]

theorem takeLine_prefix_append (front rest : List UInt8) : takeLine (front ++ rest) <+: front ++ takeLine rest := by
  induction front with
  | nil => exact List.prefix_rfl
  | cons byte front ih =>
      rw [List.cons_append, takeLine, List.cons_append]
      split_ifs with isLF
      · exact ⟨front ++ takeLine rest, by rw [isLF]; rfl⟩
      · exact (List.prefix_cons_inj byte).mpr ih

/-- Where a parse of a literal leaves the parser: the content was returned, everything
before its number is kept, and the octets behind the content are all still to be read, the
rest of its line first. -/
structure ReadLiteral (result : Except ParseError ((List UInt8 × Nat) × Nat) × Source)
    (before content rest : List UInt8) : Prop where
  positioned : ∃ indx after, result.1 = .ok ((content, content.length), indx) ∧ result.2.fd = some after ∧
    result.2.buffer.drop indx ++ after.incoming = rest ∧ takeLine rest <+: result.2.buffer.drop indx ∧
    before ++ [ascii '{'] <+: result.2.buffer

theorem mailimapStringParse_brace {ctx : ParserContext} {source : Source} {indx : Nat} {rest : List UInt8}
    (at_ : source.buffer.drop indx = ascii '{' :: rest) :
    mailimapStringParse ctx source indx =
      match mailimapLiteralParse ctx source indx with
      | (.ok (string, curToken), source) => (.ok ((string, string.length), curToken), source)
      | (.error reason, source) => (.error reason, source) := by
  rw [mailimapStringParse, mailimapQuotedParse_other at_ (by decide) (by decide)]
  dsimp only
  rcases mailimapLiteralParse ctx source indx with ⟨reason | ⟨string, curToken⟩, after⟩
  · rfl
  · rfl

theorem literalSource_at (before : List UInt8) (count : Nat) (buffered : List UInt8) :
    (before ++ literalHead false count ++ buffered).drop before.length = literalHead false count ++ buffered := by
  rw [List.append_assoc, List.drop_left]

/-- A literal of at most 64 MiB is read exactly, whatever part of it was buffered already
and however the stream cuts the rest. -/
theorem mailimapStringParse_literal {ctx : ParserContext} {s : Mailstream} (whole : s.low.Whole)
    {before buffered content rest : List UInt8} (delivered : buffered ++ s.incoming = content ++ rest)
    (size : content.length ≤ mailimapLiteralSizeMax) (uncut : NotCutShort ctx content)
    (fits : buffered.length < 2 ^ 32) :
    ReadLiteral (mailimapStringParse ctx ⟨before ++ literalHead false content.length ++ buffered, some s⟩ before.length)
      before content rest := by
  have at_ := literalSource_at before content.length buffered
  have small : content.length < 2 ^ 32 := by
    rw [mailimapLiteralSizeMax] at size
    omega
  have head := literalHeadParse_at at_
  have value : (UInt32.ofNat content.length).toNat = content.length := by
    rw [UInt32.toNat_ofNat', Nat.mod_eq_of_lt small]
  have kept : (before ++ literalHead false content.length ++ buffered).drop
      (before.length + (literalHead false content.length).length) = buffered := drop_behind at_
  have left : ((before ++ literalHead false content.length ++ buffered).length -
      (before.length + (literalHead false content.length).length)) % 2 ^ 32 = buffered.length := by
    rw [← List.length_drop, kept, Nat.mod_eq_of_lt fits]
  have opening : before ++ [ascii '{'] <+: before ++ literalHead false content.length := by
    rw [List.prefix_append_right_inj]
    exact ⟨decimal content.length ++ [ascii '}', CR, LF], by simp [literalHead]⟩
  rw [if_neg (by omega)] at head
  rw [mailimapStringParse_brace at_, mailimapLiteralParse]
  simp only [head, value, left, kept]
  by_cases inBuffer : content.length ≤ buffered.length
  · -- the content is in the buffer
    obtain ⟨ahead, buffered_eq, rest_eq⟩ : ∃ ahead, buffered = content ++ ahead ∧ ahead ++ s.incoming = rest := by
      rcases List.append_eq_append_iff.mp delivered with ⟨tail, longer, behind⟩ | ⟨tail, shorter, behind⟩
      · have lengths := congrArg List.length longer
        rw [List.length_append] at lengths
        have none : tail = [] := List.length_eq_zero_iff.mp (by omega)
        rw [none, List.append_nil] at longer
        rw [none, List.nil_append] at behind
        exact ⟨[], by rw [longer, List.append_nil], by rw [behind, List.nil_append]⟩
      · exact ⟨tail, shorter, behind.symm⟩
    obtain ⟨line, after, appended, reads, onWhole⟩ := appendFollowingLine_reads whole.steady
      (before ++ literalHead false content.length ++ buffered)
      (before.length + (literalHead false content.length).length + content.length) (buffered.take content.length)
    rw [if_pos inBuffer, appended, buffered_eq, List.take_left]
    have reached : (before ++ literalHead false content.length ++ (content ++ ahead) ++ line).drop
        (before.length + (literalHead false content.length).length + content.length) = ahead ++ line := by
      rw [show before ++ literalHead false content.length ++ (content ++ ahead) ++ line =
        before ++ literalHead false content.length ++ content ++ (ahead ++ line) by simp only [List.append_assoc]]
      apply List.drop_left'
      simp only [List.length_append]
    refine ⟨_, after, rfl, rfl, ?_, ?_, ?_⟩
    · dsimp only
      rw [reached, List.append_assoc, reads.order, rest_eq]
    · dsimp only
      rw [reached, ← rest_eq, onWhole whole]
      exact takeLine_prefix_append ahead s.incoming
    · dsimp only
      rw [List.append_assoc]
      exact opening.trans (List.prefix_append _ _)
  · -- the rest of the content comes from the stream
    obtain ⟨data, content_eq, incoming⟩ : ∃ data, content = buffered ++ data ∧ s.incoming = data ++ rest := by
      rcases List.append_eq_append_iff.mp delivered with ⟨tail, longer, behind⟩ | ⟨tail, shorter, behind⟩
      · exact ⟨tail, longer, behind⟩
      · have lengths := congrArg List.length shorter
        rw [List.length_append] at lengths
        omega
    have needed : content.length - buffered.length = data.length := by
      rw [content_eq, List.length_append]
      omega
    have read := readLiteral_whole whole incoming (content_eq ▸ uncut : NotCutShort ctx (buffered ++ data))
    rw [← needed, ← content_eq] at read
    obtain ⟨line, after, appended, reads, onWhole⟩ := appendFollowingLine_reads (read.2.whole whole).steady
      (before ++ [ascii '{'] ++ [ascii '0', ascii '}', CR, LF]) (before.length + 1 + 4) content
    have number : (before ++ literalHead false content.length ++ buffered).take (before.length + 1) =
        before ++ [ascii '{'] := by
      rw [List.append_assoc, List.take_append, List.take_of_length_le (by omega), Nat.add_sub_cancel_left]
      rfl
    have behind : (readLiteral ctx s (content.length - buffered.length) buffered).2.incoming = rest := by
      have order := read.2.order
      rw [incoming] at order
      exact List.append_cancel_left order
    rw [if_neg inBuffer, List.take_length]
    simp only [read.1, number, appended]
    have reached : (before ++ [ascii '{'] ++ [ascii '0', ascii '}', CR, LF] ++ line).drop (before.length + 1 + 4) = line := by
      apply List.drop_left'
      simp only [List.length_append, List.length_cons, List.length_nil]
    refine ⟨_, after, rfl, rfl, ?_, ?_, ?_⟩
    · dsimp only
      rw [reached, reads.order, behind]
    · dsimp only
      rw [reached, onWhole (read.2.whole whole), behind]
    · dsimp only
      rw [List.append_assoc]
      exact List.prefix_append _ _

def delivering (chunks : List (List UInt8)) : Mailstream where
  readBuffer := []
  writeBuffer := []
  bufferMaxSize := 8192
  low := { reads := chunks.map .bytes, writes := [] }
  positive := bufferSize_pos
  readFits := nothing_fits
  writeFits := nothing_fits

theorem delivering_whole {chunks : List (List UInt8)} (nonempty : ∀ chunk ∈ chunks, chunk ≠ []) :
    (delivering chunks).low.Whole := by
  intro answer member
  obtain ⟨chunk, isChunk, rfl⟩ := List.mem_map.mp member
  exact ⟨nofun, fun empty => nonempty chunk isChunk (LowRead.bytes.inj empty)⟩

/-- A content that holds a line break and looks like the end of a response, in two parts. -/
theorem mailimapStringParse_literal_cut :
    ReadLiteral (mailimapStringParse ⟨true⟩
        ⟨[ascii '('] ++ literalHead false (asciiText "a\r\n)\r\n").length ++ [],
          some (delivering [asciiText "a\r\n)", asciiText "\r\n)\r\n"])⟩ [ascii '('].length)
      [ascii '('] (asciiText "a\r\n)\r\n") (asciiText ")\r\n") :=
  mailimapStringParse_literal (delivering_whole (by decide)) (by decide) (by decide)
    (by unfold NotCutShort; decide) (by decide)

theorem mailimapStringParse_tooLong {ctx : ParserContext} {fd : Option Mailstream} {before buffered : List UInt8}
    {count : Nat} (long : mailimapLiteralSizeMax < count) :
    mailimapStringParse ctx ⟨before ++ literalHead false count ++ buffered, fd⟩ before.length =
      (.error .parse, ⟨before ++ literalHead false count ++ buffered, fd⟩) := by
  have at_ := literalSource_at before count buffered
  have head := literalHeadParse_at at_
  rw [if_pos long] at head
  rw [mailimapStringParse_brace at_, mailimapLiteralParse]
  simp only [head]

def longContent : List UInt8 := List.replicate (mailimapLiteralSizeMax + 1) 0

/-- One octet more than 64 MiB is refused. -/
theorem mailimapStringParse_refuses_long :
    ¬ ReadLiteral (mailimapStringParse ⟨false⟩
        ⟨[ascii '('] ++ literalHead false longContent.length ++ [], some (delivering [longContent ++ [CR, LF]])⟩
        [ascii '('].length)
      [ascii '('] longContent [CR, LF] := by
  have length : longContent.length = mailimapLiteralSizeMax + 1 := List.length_replicate
  rintro ⟨indx, after, accepted, -⟩
  rw [mailimapStringParse_tooLong (by omega)] at accepted
  cases accepted

end Etpan.Imap
