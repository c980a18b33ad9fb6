import Etpan.Mime.EncodedReads

namespace Etpan.Mime

open Etpan.Data Etpan.Imf

/-! One turn of the phrase parser over a text in pieces. -/

/-- What is left of the pieces when an encoded word has taken the words that go on with it. -/
inductive Group : List Piece → List Piece → Prop
  | refl (pieces) : Group pieces pieces
  | encoded {word pieces pieces'} (rest : Group pieces pieces') : Group (.encoded word :: pieces) pieces'
  | folded {octets word pieces pieces'} (isFws : IsFws octets) (rest : Group pieces pieces') :
      Group (.blank octets :: .encoded word :: pieces) pieces'

/-- There is a raw piece that looks like an encoded word. -/
def Marked (pieces : List Piece) : Prop := ∃ octets, .raw octets ∈ pieces ∧ asciiText "=?" <:+: octets

theorem Marked.cons {piece : Piece} {pieces : List Piece} (marked : Marked pieces) : Marked (piece :: pieces) := by
  obtain ⟨octets, member, found⟩ := marked
  exact ⟨octets, List.mem_cons_of_mem _ member, found⟩

/-- An encoded word was read: the pieces behind it that are left, or everything is lost behind a mark. -/
def LeavesPieces (pieces : List Piece) (rest : List UInt8) : Prop :=
  (∃ pieces', Group pieces pieces' ∧ CutPieces rest pieces') ∨ (rest = [] ∧ Marked pieces)

theorem IsEncodedWord.solid {word : List UInt8} (isWord : IsEncodedWord word) (tail : List UInt8) : Solid (word ++ tail) := by
  obtain ⟨rest, split⟩ := isWord.mark tail
  rw [← split]
  rfl

def StopsWord (text : List UInt8) : Prop := text = [] ∨ text.head?.any isBlankOctet = true ∨ asciiText "=?" <+: text

theorem StopsWord.of_word {text : List UInt8} (stops : text = [] ∨ text.head?.any isBlankOctet = true ∨ StartsEncodedWord text) : StopsWord text := by
  rcases stops with isEnd | isBlank | ⟨word, rest, rfl, isWord⟩
  · exact .inl isEnd
  · exact .inr (.inl isBlank)
  · exact .inr (.inr (isWord.mark rest))

theorem mark_of_prefix_append {octets text : List UInt8} (nonempty : octets ≠ []) (found : asciiText "=?" <+: octets ++ text)
    (stops : StopsWord text) : asciiText "=?" <+: octets := by
  have mark : asciiText "=?" = [ascii '=', ascii '?'] := rfl
  obtain ⟨rest, same⟩ := found
  obtain ⟨first, others, rfl⟩ := List.exists_cons_of_ne_nil nonempty
  simp only [mark, List.cons_append, List.nil_append, List.cons.injEq] at same
  obtain ⟨rfl, behind⟩ := same
  rcases others with _ | ⟨second, others⟩
  · exfalso
    rw [List.nil_append] at behind
    rcases stops with rfl | isBlank | ⟨after, rfl⟩
    · cases behind
    · rw [← behind] at isBlank
      cases isBlank
    · rw [mark] at behind
      cases behind
  · rw [List.cons_append, List.cons.injEq] at behind
    obtain ⟨rfl, -⟩ := behind
    exact ⟨others, rfl⟩

theorem lookForward_solid {tail : List UInt8} {pieces : List Piece} {lookfwd : EncodedStart} (cut : CutPieces tail pieces) (solid : Solid tail)
    (follows : encodedStartParse tail = .ok lookfwd) :
    (∃ word text rest body, pieces = .encoded word :: rest ∧ CutPieces text rest ∧ endEncoding lookfwd.rest = (body, asciiText "?=" ++ text)) ∨
      (Marked pieces ∧ endEncoding lookfwd.rest = (lookfwd.rest, [])) := by
  cases cut with
  | nil => cases follows
  | @encoded word text pieces isWord rest =>
      obtain ⟨start, body, parsed, -, ends⟩ := isWord.start text
      rw [parsed] at follows
      cases follows
      exact .inl ⟨word, text, pieces, body, rfl, rest, ends⟩
  | @raw octets text pieces nonempty notBlank noWord stops rest =>
      have isMark := mark_of_prefix_append nonempty (encodedStartParse_mark follows) (.of_word stops)
      exact .inr ⟨⟨octets, List.mem_cons_self, isMark.isInfix⟩, endEncoding_of_noWord follows (noWord [] octets rfl nonempty)⟩
  | @blank octets text pieces nonempty areBlank stops rest =>
      obtain ⟨first, others, rfl⟩ := List.exists_cons_of_ne_nil nonempty
      have isBlank := areBlank first List.mem_cons_self
      rw [List.cons_append, solid_cons, isBlank] at solid
      cases solid

theorem lookForward {tail : List UInt8} {pieces : List Piece} {lookfwd : EncodedStart} (cut : CutPieces tail pieces)
    (follows : encodedStartParse (skipFws tail) = .ok lookfwd) :
    (∃ text rest body, CutPieces text rest ∧ endEncoding lookfwd.rest = (body, asciiText "?=" ++ text) ∧
        (∀ pieces', Group rest pieces' → Group pieces pieces') ∧ (Marked rest → Marked pieces)) ∨
      (Marked pieces ∧ endEncoding lookfwd.rest = (lookfwd.rest, [])) := by
  by_cases solid : Solid tail
  · rw [(skipFws_solid solid).1] at follows
    rcases lookForward_solid cut solid follows with ⟨word, text, rest, body, rfl, cutRest, ends⟩ | lost
    · exact .inl ⟨text, rest, body, cutRest, ends, fun _ group => .encoded group, Marked.cons⟩
    · exact .inr lost
  cases cut with
  | nil => exact absurd solid_nil solid
  | @encoded word text pieces isWord rest => exact absurd (isWord.solid text) solid
  | @raw octets text pieces nonempty notBlank noWord stops rest =>
      obtain ⟨first, others, rfl⟩ := List.exists_cons_of_ne_nil nonempty
      exact absurd (notBlank first List.mem_cons_self) solid
  | @blank octets text pieces nonempty areBlank stops rest =>
      rcases skipFws_blanks nonempty areBlank stops with ⟨isFws, skipped⟩ | ⟨-, octet, others, skipped, isBlank⟩
      · rw [skipped] at follows
        rcases lookForward_solid rest stops follows with ⟨word, after, pieces, body, rfl, cutRest, ends⟩ | ⟨marked, ends⟩
        · exact .inl ⟨after, pieces, body, cutRest, ends, fun _ group => .folded isFws group, fun marked => marked.cons.cons⟩
        · exact .inr ⟨marked.cons, ends⟩
      · obtain ⟨after, spelled⟩ := encodedStartParse_mark follows
        rw [skipped] at spelled
        obtain ⟨rfl, -⟩ := List.cons.inj spelled
        cases isBlank

/-- The loop of an encoded word takes whole pieces, or the rest of the text behind a mark. -/
theorem encodedBodyLoop_pieces {charset : List UInt8} {encoding : MailmimeEncoding} {body text tail copied : List UInt8} {pieces : List Piece}
    (ends : endEncoding text = (copied, asciiText "?=" ++ tail)) (cut : CutPieces tail pieces) :
    LeavesPieces pieces (encodedBodyLoop charset encoding body text).2 := by
  induction length : tail.length using Nat.strong_induction_on generalizing body text tail copied pieces with
  | _ count ih =>
      by_cases stops : encoding = .b ∧ copied.getLast? = some (ascii '=') ∨
          ∀ lookfwd, encodedStartParse (skipFws tail) = .ok lookfwd → ¬ (sameCaseless charset lookfwd.charset = true ∧ encoding = lookfwd.encoding)
      · rw [encodedBodyLoop_last ends stops]
        exact .inl ⟨pieces, .refl pieces, cut⟩
      push Not at stops
      obtain ⟨unpadded, lookfwd, follows, same⟩ := stops
      rw [encodedBodyLoop_more ends (fun padded => unpadded padded.1 padded.2) follows same]
      rcases lookForward cut follows with ⟨after, rest, body', cutRest, endsRest, grouped, marked⟩ | ⟨marked, isOpen⟩
      · have shorter : after.length < count := by
          have inText := congrArg List.length (endEncoding_append lookfwd.rest)
          have started := encodedStartParse_shorter follows
          have skipped := (skipFws_suffix tail).length_le
          rw [endsRest, List.length_append, List.length_append] at inText
          omega
        rcases ih after.length shorter endsRest cutRest rfl with ⟨pieces', group, cut'⟩ | ⟨atEnd, lost⟩
        · exact .inl ⟨pieces', grouped pieces' group, cut'⟩
        · exact .inr ⟨atEnd, marked lost⟩
      · rw [encodedBodyLoop_open isOpen]
        exact .inr ⟨rfl, marked⟩

section Words

variable {gap text : List UInt8} (isGap : IsGap gap)

include isGap

theorem mailmimeEncodedWordParse_error {quote : List UInt8} {error : MailimfError} (solid : Solid (quote ++ text))
    (isQuote : quote = [] ∧ text.head? ≠ some (ascii '"') ∨ quote = [ascii '"']) (failed : encodedStartParse text = .error error) :
    mailmimeEncodedWordParse (gap ++ (quote ++ text)) = .error error := by
  rcases isQuote with ⟨rfl, unquoted⟩ | rfl
  · have noQuote : mailimfCharParse (ascii '"') text = none := by
      cases parsed : mailimfCharParse (ascii '"') text with
      | none => rfl
      | some rest =>
          rw [mailimfCharParse_some.mp parsed] at unquoted
          exact absurd rfl unquoted
    rw [List.nil_append] at solid ⊢
    simp only [mailmimeEncodedWordParse, (isGap.skip solid).1, noQuote, Option.getD_none, failed]
  · have isQuote : mailimfCharParse (ascii '"') ([ascii '"'] ++ text) = some text := mailimfCharParse_some.mpr rfl
    simp only [mailmimeEncodedWordParse, (isGap.skip solid).1, isQuote, Option.getD_some, failed]

/-- The word is read; behind an opening quote, the closing quote goes with it. -/
theorem mailmimeEncodedWordParse_start {quote : List UInt8} {start : EncodedStart} (isQuote : quote = [] ∨ quote = [ascii '"'])
    (parsed : encodedStartParse text = .ok start) :
    ∃ read, mailmimeEncodedWordParse (gap ++ (quote ++ text)) = .ok read ∧ read.hasFwd = decide (gap ≠ []) ∧ read.word.wdCharset ≠ [] ∧
      ((encodedBodyLoop start.charset start.encoding [] start.rest).2 = read.rest ∨
        quote = [ascii '"'] ∧ (encodedBodyLoop start.charset start.encoding [] start.rest).2 = ascii '"' :: read.rest) := by
  obtain ⟨decoded, isDecoded⟩ := decodeEncodedBody_ok start.encoding (encodedBodyLoop start.charset start.encoding [] start.rest).1
  obtain ⟨_, split, nonempty, -⟩ := encodedStartParse_ok parsed
  have charsetNonempty : (if sameCaseless start.charset (asciiText "utf8") then asciiText "utf-8" else start.charset) ≠ [] := by
    split_ifs
    · exact List.cons_ne_nil _ _
    · exact nonempty
  have solid : Solid text := by
    rw [split]
    rfl
  rcases isQuote with rfl | rfl
  · have noQuote : mailimfCharParse (ascii '"') text = none := by
      rw [split]
      rfl
    simp only [mailmimeEncodedWordParse, List.nil_append, (isGap.skip solid).1, (isGap.skip solid).2, noQuote, Option.getD_none, parsed, isDecoded]
    refine ⟨_, rfl, ?_, charsetNonempty, .inl ?_⟩
    · rfl
    · rfl
  · have solidQuote : Solid ([ascii '"'] ++ text) := rfl
    have isQuote : mailimfCharParse (ascii '"') ([ascii '"'] ++ text) = some text := mailimfCharParse_some.mpr rfl
    simp only [mailmimeEncodedWordParse, (isGap.skip solidQuote).1, (isGap.skip solidQuote).2, isQuote, Option.getD_some, parsed, isDecoded]
    refine ⟨_, rfl, ?_, charsetNonempty, ?_⟩
    · rfl
    simp only [Option.isSome_some, if_true]
    cases closing : mailimfCharParse (ascii '"') (encodedBodyLoop start.charset start.encoding [] start.rest).2 with
    | none => exact .inl rfl
    | some rest => exact .inr ⟨trivial, mailimfCharParse_some.mp closing⟩

end Words

theorem mailmimeEncodedWordParse_suffix {text : List UInt8} {read : EncodedWordRead} (parsed : mailmimeEncodedWordParse text = .ok read) :
    read.rest <:+ text := by
  rw [mailmimeEncodedWordParse] at parsed
  dsimp only at parsed
  split at parsed
  · cases parsed
  next start isStart =>
  split at parsed
  · cases parsed
  cases parsed
  obtain ⟨_, split, -⟩ := encodedStartParse_ok isStart
  have unquoted := (mailimfCharParse_getD_suffix (ascii '"') (skipFws text)).trans (skipFws_suffix text)
  have inStart : start.rest <:+ text := (show start.rest <:+ _ from ⟨_, split.symm⟩).trans unquoted
  have looped := (encodedBodyLoop_suffix start.charset start.encoding [] start.rest).trans inStart
  dsimp only
  split_ifs
  · exact (mailimfCharParse_getD_suffix _ _).trans looped
  · exact looped

theorem nonEncodedEnd_raw {octets text : List UInt8} {state : Bool} {curToken : Nat} (notBlank : ∀ octet ∈ octets, isBlankOctet octet = false)
    (noMark : ¬ asciiText "=?" <:+: octets) (notAfter : state = true → octets.head? ≠ some (ascii '?')) (stops : StopsWord text) :
    nonEncodedEnd (octets ++ text) state curToken = curToken + octets.length := by
  induction octets generalizing state curToken with
  | nil =>
      rw [List.nil_append, List.length_nil, Nat.add_zero]
      rcases stops with rfl | isBlank | ⟨rest, rfl⟩
      · rfl
      · obtain _ | ⟨ch, rest⟩ := text
        · cases isBlank
        · simp only [List.head?_cons, Option.any_some, isBlankOctet, Bool.or_eq_true, decide_eq_true_eq, or_assoc] at isBlank
          rw [nonEncodedEnd, if_pos isBlank]
      · rfl
  | cons ch octets ih =>
      have isSolid := notBlank ch List.mem_cons_self
      have notBreak : ¬ (ch = ascii ' ' ∨ ch = ascii '\t' ∨ ch = CR ∨ ch = LF) := by
        simpa only [isBlankOctet, Bool.or_eq_false_iff, decide_eq_false_iff_not, not_or, and_assoc] using isSolid
      have clean : ¬ asciiText "=?" <:+: octets := fun found => noMark (found.trans (List.suffix_cons ch octets).isInfix)
      have others := fun octet member => notBlank octet (List.mem_cons_of_mem ch member)
      rw [List.cons_append, nonEncodedEnd, if_neg notBreak, List.length_cons]
      split_ifs with isEqual isMark
      · subst isEqual
        rw [ih others clean, Nat.add_assoc, Nat.add_comm 1]
        intro _ isMark
        obtain ⟨behind, rfl⟩ := List.head?_eq_some_iff.mp isMark
        exact noMark ⟨[], behind, rfl⟩
      · exact absurd (congrArg some isMark.1) (notAfter isMark.2)
      · rw [ih others clean, Nat.add_assoc, Nat.add_comm 1]
        intro isTrue
        cases isTrue

theorem encodedStartParse_raw {octets text : List UInt8} (nonempty : octets ≠ []) (noMark : ¬ asciiText "=?" <:+: octets) (stops : StopsWord text) :
    encodedStartParse (octets ++ text) = .error .parse :=
  encodedStartParse_noMark fun found => noMark (mark_of_prefix_append nonempty found stops).isInfix

section RawWords

variable {gap octets text : List UInt8} (isGap : IsGap gap) (nonempty : octets ≠ []) (notBlank : ∀ octet ∈ octets, isBlankOctet octet = false)
  (noMark : ¬ asciiText "=?" <:+: octets) (stops : StopsWord text)

include isGap nonempty notBlank noMark stops

theorem mailmimeNonEncodedWordParse_raw :
    mailmimeNonEncodedWordParse (gap ++ (octets ++ text)) = some { text := octets, hasFwd := decide (gap ≠ []), rest := text } := by
  have solid : Solid (octets ++ text) := by
    obtain ⟨first, others, rfl⟩ := List.exists_cons_of_ne_nil nonempty
    exact notBlank first List.mem_cons_self
  have ends : nonEncodedEnd (octets ++ text) false 0 = octets.length := by
    rw [nonEncodedEnd_raw notBlank noMark (fun isTrue => absurd isTrue Bool.false_ne_true) stops, Nat.zero_add]
  have positive := List.length_pos_iff.mpr nonempty
  simp only [mailmimeNonEncodedWordParse, (isGap.skip solid).1, (isGap.skip solid).2, ends, if_neg (Nat.ne_of_gt positive), List.take_left,
    List.drop_left]

theorem mailmimeEncodedWordParse_raw (unquoted : octets = [ascii '"'] → encodedStartParse text = .error .parse) :
    mailmimeEncodedWordParse (gap ++ (octets ++ text)) = .error .parse := by
  obtain ⟨first, others, rfl⟩ := List.exists_cons_of_ne_nil nonempty
  by_cases isQuote : first = ascii '"'
  · subst isQuote
    have failed : encodedStartParse (others ++ text) = .error .parse := by
      rcases others with _ | ⟨second, others⟩
      · exact unquoted rfl
      · exact encodedStartParse_raw (List.cons_ne_nil _ _) (fun found => noMark (found.trans (List.suffix_cons _ _).isInfix)) stops
    have solid : Solid ([ascii '"'] ++ (others ++ text)) := rfl
    exact @mailmimeEncodedWordParse_error gap _ isGap [ascii '"'] .parse solid (.inr rfl) failed
  · have solid : Solid (first :: others ++ text) := notBlank first List.mem_cons_self
    have unquoted' : (first :: others ++ text).head? ≠ some (ascii '"') := fun isHead => isQuote (Option.some.inj isHead)
    have failed := encodedStartParse_raw nonempty noMark stops
    exact @mailmimeEncodedWordParse_error gap _ isGap [] .parse solid (.inl ⟨rfl, unquoted'⟩) failed

end RawWords

end Etpan.Mime
