import Etpan.Mime.EncodedWord
import Etpan.Mime.QuotedPrintableRoundTrip

namespace Etpan.Mime

open Etpan.Data Etpan.Imf

/-! A text that is cut over several encoded words of one charset and encoding. -/

def base64Of : List UInt8 → List UInt8
  | [] => []
  | [a] => ogroup a 0 0 1
  | [a, b] => ogroup a b 0 2
  | a :: b :: c :: rest => ogroup a b c 3 ++ base64Of rest

/-- A Q encoding of a text: an octet stands for itself, an underscore for a blank, and any octet may be
written with its two hexadecimal digits. -/
inductive QEncodes : List UInt8 → List UInt8 → Prop
  | nil : QEncodes [] []
  | literal {octet encoded text} (isLiteral : octet ∉ [0, CR, LF, ascii '=', ascii '?', ascii '_']) (rest : QEncodes encoded text) :
      QEncodes (octet :: encoded) (octet :: text)
  | blank {encoded text} (rest : QEncodes encoded text) : QEncodes (ascii '_' :: encoded) (ascii ' ' :: text)
  | escape {octet high low encoded text} (isHigh : tolower high = tolower (hexDigit (octet.toNat / 16)))
      (isLow : tolower low = tolower (hexDigit (octet.toNat % 16))) (rest : QEncodes encoded text) :
      QEncodes (ascii '=' :: high :: low :: encoded) (octet :: text)

/-- The bodies of the words for a text. All chunks for base64 but the last have groups of three octets. -/
inductive CutText : MailmimeEncoding → List (List UInt8) → List UInt8 → Prop
  | lastB (chunk) : CutText .b [base64Of chunk] chunk
  | moreB {chunk bodies text} (groups : 3 ∣ chunk.length) (rest : CutText .b bodies text) : CutText .b (base64Of chunk :: bodies) (chunk ++ text)
  | lastQ {encoded chunk} (isQ : QEncodes encoded chunk) : CutText .q [encoded] chunk
  | moreQ {encoded chunk bodies text} (isQ : QEncodes encoded chunk) (rest : CutText .q bodies text) :
      CutText .q (encoded :: bodies) (chunk ++ text)

inductive IsFws : List UInt8 → Prop
  | one {lineEnd wsp} (isEnd : lineEnd ∈ [[], [LF], [CR, LF]]) (isWsp : isWspChar wsp = true) : IsFws (lineEnd ++ [wsp])
  | more {lineEnd wsp rest} (isEnd : lineEnd ∈ [[], [LF], [CR, LF]]) (isWsp : isWspChar wsp = true) (isFws : IsFws rest) :
      IsFws (lineEnd ++ wsp :: rest)

def encodedWordText (charset : List UInt8) (letter : UInt8) (body : List UInt8) : List UInt8 :=
  asciiText "=?" ++ charset ++ [ascii '?', letter, ascii '?'] ++ (body ++ asciiText "?=")

/-- The words with these bodies, with folding white space between them. -/
inductive JoinedWords (charset : List UInt8) (letter : UInt8) : List (List UInt8) → List UInt8 → Prop
  | last (body) : JoinedWords charset letter [body] (encodedWordText charset letter body)
  | more (body) {separator bodies message} (isFws : IsFws separator) (rest : JoinedWords charset letter bodies message) :
      JoinedWords charset letter (body :: bodies) (encodedWordText charset letter body ++ separator ++ message)

def MailmimeEncoding.letter : MailmimeEncoding → UInt8
  | .b => ascii 'b'
  | .q => ascii 'q'

theorem startsFws_lineEnd {lineEnd rest : List UInt8} {wsp : UInt8} (isEnd : lineEnd ∈ [[], [LF], [CR, LF]]) (isWsp : isWspChar wsp = true) :
    startsFws (lineEnd ++ wsp :: rest) = true ∧ skipFws (lineEnd ++ wsp :: rest) = skipFws rest := by
  have blank : startsFws (wsp :: rest) = true := by
    rw [startsFws, isWsp]
    rfl
  have afterBlank : skipFws (wsp :: rest) = skipFws rest := by
    rw [skipFws, if_pos blank]
  have afterLF : startsFws (LF :: wsp :: rest) = true := by
    rw [startsFws, List.head?_cons, Option.any_some, isWsp]
    rfl
  have afterCR : startsFws (CR :: LF :: wsp :: rest) = true := by
    rw [startsFws, List.head?_cons, List.tail_cons, List.head?_cons, Option.any_some, Option.any_some, isWsp]
    rfl
  rcases List.mem_cons.mp isEnd with rfl | isEnd
  · exact ⟨blank, afterBlank⟩
  rcases List.mem_pair.mp isEnd with rfl | rfl
  · refine ⟨afterLF, ?_⟩
    rw [List.singleton_append, skipFws, if_pos afterLF, afterBlank]
  · refine ⟨afterCR, ?_⟩
    rw [List.cons_append, List.singleton_append, skipFws, if_pos afterCR, skipFws, if_pos afterLF, afterBlank]

theorem IsFws.skip {separator : List UInt8} (isFws : IsFws separator) (more : List UInt8) : skipFws (separator ++ more) = skipFws more := by
  induction isFws with
  | @one lineEnd wsp isEnd isWsp => rw [List.append_assoc, List.singleton_append, (startsFws_lineEnd isEnd isWsp).2]
  | @more lineEnd wsp rest isEnd isWsp _ ih => rw [List.append_assoc, List.cons_append, (startsFws_lineEnd isEnd isWsp).2, ih]

theorem base64Of_line (chunk : List UInt8) : Base64Line (base64Of chunk) := by
  fun_induction base64Of chunk with
  | case1 => exact fun _ member => absurd member List.not_mem_nil
  | case2 a => exact ogroup_line a 0 0 1
  | case3 a b => exact ogroup_line a b 0 2
  | case4 a b c rest ih =>
      intro byte member
      rcases List.mem_append.mp member with group | later
      · exact ogroup_line a b c 3 byte group
      · exact ih byte later

theorem base64Of_unpadded {chunk : List UInt8} (groups : 3 ∣ chunk.length) : ascii '=' ∉ base64Of chunk := by
  have notLetter : ∀ value < 64, base64Char value ≠ ascii '=' := by decide +kernel
  fun_induction base64Of chunk with
  | case1 => exact List.not_mem_nil
  | case2 a => simp at groups
  | case3 a b => simp at groups
  | case4 a b c rest ih =>
      rw [List.length_cons, List.length_cons, List.length_cons] at groups
      have aBound := a.toNat_lt
      have bBound := b.toNat_lt
      have cBound := c.toNat_lt
      obtain ⟨first, second, third, fourth⟩ := sextets a b c
      have group : ascii '=' ∉ ogroup a b c 3 := by
        simp only [ogroup, first, second, third, fourth, List.mem_cons, List.not_mem_nil, or_false, not_or]
        exact ⟨(notLetter _ (by omega)).symm, (notLetter _ (by omega)).symm, (notLetter _ (by omega)).symm, (notLetter _ (by omega)).symm⟩
      rw [List.mem_append, not_or]
      exact ⟨group, ih (by omega)⟩

theorem base64Of_append {chunk : List UInt8} (groups : 3 ∣ chunk.length) (text : List UInt8) :
    base64Of chunk ++ base64Of text = base64Of (chunk ++ text) := by
  fun_induction base64Of chunk with
  | case1 => rfl
  | case2 a => simp at groups
  | case3 a b => simp at groups
  | case4 a b c rest ih =>
      rw [List.length_cons, List.length_cons, List.length_cons] at groups
      rw [List.append_assoc, ih (by omega)]
      rfl

theorem scan_base64Of (text : List UInt8) {st : Base64State} (closed : st.chunk = []) :
    ((base64Of text).foldl base64Step st).written ++ base64Rest ((base64Of text).foldl base64Step st).chunk = st.written ++ text := by
  fun_induction base64Of text generalizing st with
  | case1 => rw [List.foldl_nil, closed, base64Rest, if_pos rfl]
  | case2 a => exact (scan_one closed a).2
  | case3 a b => exact (scan_two closed a b).2
  | case4 a b c rest ih =>
      rw [List.foldl_append, scan_group closed, ih rfl, List.append_assoc]
      rfl

theorem mailmimeBase64BodyParse_base64Of (text : List UInt8) : (mailmimeBase64BodyParse (base64Of text) 0).map Prod.snd = .ok text := by
  have scanned := @scan_base64Of text ⟨0, 0, [], []⟩ rfl
  rw [mailmimeBase64BodyParse, mailmimeBase64BodyParseImpl, if_neg (Nat.not_lt_zero _), List.drop_zero]
  simp only [Bool.false_eq_true, if_false, Except.map, scanned, List.nil_append]

theorem hexDigit_read (digit : UInt8) (value : Nat) (small : value < 16) (same : tolower digit = tolower (hexDigit value)) :
    hexaToChar digit = value ∧ digit ∉ [0, CR, LF, ascii '?'] := by
  have read : ∀ digit : UInt8, ∀ value : Fin 16, tolower digit ≠ tolower (hexDigit value) ∨
      hexaToChar digit = value ∧ digit ∉ [0, CR, LF, ascii '?'] := forall_octet (by decide +kernel)
  exact (read digit ⟨value, small⟩).resolve_left (not_not.mpr same)

theorem QEncodes.octets {encoded text : List UInt8} (isQ : QEncodes encoded text) : ∀ octet ∈ encoded, octet ≠ 0 ∧ octet ≠ ascii '?' := by
  induction isQ with
  | nil => exact fun _ member => absurd member List.not_mem_nil
  | literal isLiteral _ ih =>
      intro octet member
      rcases List.mem_cons.mp member with rfl | later
      · simp only [List.mem_cons, List.not_mem_nil, not_or] at isLiteral
        exact ⟨isLiteral.1, isLiteral.2.2.2.2.1⟩
      · exact ih octet later
  | blank _ ih =>
      intro octet member
      rcases List.mem_cons.mp member with rfl | later
      · decide
      · exact ih octet later
  | @escape value high low _ _ isHigh isLow _ ih =>
      have valueBound := value.toNat_lt
      have highRead := (hexDigit_read high _ (by omega) isHigh).2
      have lowRead := (hexDigit_read low _ (by omega) isLow).2
      simp only [List.mem_cons, List.not_mem_nil, or_false, not_or] at highRead lowRead
      intro octet member
      rcases List.mem_cons.mp member with rfl | member
      · decide
      rcases List.mem_cons.mp member with rfl | member
      · exact ⟨highRead.1, highRead.2.2.2⟩
      rcases List.mem_cons.mp member with rfl | later
      · exact ⟨lowRead.1, lowRead.2.2.2⟩
      · exact ih octet later

theorem QEncodes.decoded {encoded text : List UInt8} (isQ : QEncodes encoded text) (rest : List UInt8) :
    (qpDecode true false (encoded ++ rest)).1 = text ++ (qpDecode true false rest).1 := by
  induction isQ with
  | nil => rfl
  | @literal octet encoded text isLiteral _ ih =>
      simp only [List.mem_cons, List.not_mem_nil, or_false, not_or] at isLiteral
      obtain ⟨-, notCR, notLF, notEqual, -, notUnderscore⟩ := isLiteral
      rw [List.cons_append, qpDecode_literal notEqual notLF notCR (by simp [notUnderscore])]
      rw [List.cons_append, ← ih]
      rfl
  | @blank encoded text _ ih =>
      have turn : qpDecode true false (ascii '_' :: (encoded ++ rest)) = emit [ascii ' '] (qpDecode true false (encoded ++ rest)) := by
        rw [qpDecode.eq_def]
        rfl
      rw [List.cons_append, turn, List.cons_append, ← ih]
      rfl
  | @escape octet high low encoded text isHigh isLow _ ih =>
      have bound := octet.toNat_lt
      obtain ⟨highValue, highOctet⟩ := hexDigit_read high _ (by omega) isHigh
      obtain ⟨lowValue, -⟩ := hexDigit_read low _ (by omega) isLow
      simp only [List.mem_cons, List.not_mem_nil, or_false, not_or] at highOctet
      have value : toChar high low = octet := by
        rw [toChar, highValue, lowValue, shiftLeft_or _ (by omega)]
        exact ofNat_eq (by omega)
      rw [List.cons_append, List.cons_append, List.cons_append, qpDecode_escape highOctet.2.1 highOctet.2.2.1, value, List.cons_append, ← ih]
      rfl

theorem QEncodes.append {encoded encoded' text text' : List UInt8} (isQ : QEncodes encoded text) (isQ' : QEncodes encoded' text') :
    QEncodes (encoded ++ encoded') (text ++ text') := by
  induction isQ with
  | nil => exact isQ'
  | literal isLiteral _ ih => exact .literal isLiteral ih
  | blank _ ih => exact .blank ih
  | escape isHigh isLow _ ih => exact .escape isHigh isLow ih

theorem QEncodes.parse {encoded text : List UInt8} (isQ : QEncodes encoded text) :
    (mailmimeQuotedPrintableBodyParse encoded 0 true).map Prod.snd = .ok text := by
  have decoded := isQ.decoded []
  have nothing : (qpDecode true false []).1 = [] := rfl
  rw [List.append_nil, nothing, List.append_nil] at decoded
  rw [mailmimeQuotedPrintableBodyParse, mailmimeQuotedPrintableBodyParseImpl_eq _ _ _ (Nat.zero_le _), List.drop_zero, decoded]
  rfl

section Words

variable {charset : List UInt8} {letter : UInt8} {encoding : MailmimeEncoding} (nonempty : charset ≠ [])
  (areEtoken : ∀ octet ∈ charset, isEtokenChar octet = true)
  (isLetter : encoding = .q ∧ tolower letter = ascii 'q' ∨ encoding = .b ∧ tolower letter = ascii 'b')

theorem JoinedWords.starts {bodies : List (List UInt8)} {message : List UInt8} (joined : JoinedWords charset letter bodies message) :
    ∃ behind, message = asciiText "=?" ++ charset ++ [ascii '?', letter, ascii '?'] ++ behind := by
  cases joined with
  | last body => exact ⟨_, rfl⟩
  | @more body separator bodies message' _ _ =>
      refine ⟨body ++ asciiText "?=" ++ separator ++ message', ?_⟩
      simp only [encodedWordText, List.append_assoc]

theorem JoinedWords.unfolded {bodies : List (List UInt8)} {message : List UInt8} (joined : JoinedWords charset letter bodies message) :
    skipFws message = message ∧ mailimfFwsParse message = none ∧ mailimfCharParse (ascii '"') message = none := by
  obtain ⟨behind, rfl⟩ := joined.starts
  exact ⟨rfl, rfl, rfl⟩

include nonempty areEtoken isLetter

omit nonempty areEtoken isLetter in
theorem notInfix_of_clean {body : List UInt8} (clean : ascii '?' ∉ body) : ¬ asciiText "?=" <:+: body := by
  intro found
  exact clean (found.subset List.mem_cons_self)

theorem encodedBodyLoop_joined {bodies : List (List UInt8)} {message : List UInt8} (joined : JoinedWords charset letter bodies message)
    (clean : ∀ body ∈ bodies, ascii '?' ∉ body) (unpadded : encoding = .b → ∀ body ∈ bodies.dropLast, ascii '=' ∉ body) :
    ∃ behind, message = asciiText "=?" ++ charset ++ [ascii '?', letter, ascii '?'] ++ behind ∧
      ∀ before, encodedBodyLoop charset encoding before behind = (before ++ bodies.flatten, []) := by
  induction joined with
  | last body =>
      refine ⟨body ++ asciiText "?=", rfl, fun before => ?_⟩
      have ends := endEncoding_body (notInfix_of_clean (clean body List.mem_cons_self)) []
      rw [List.append_nil] at ends
      rw [encodedBodyLoop_last ends (.inr fun lookfwd follows => by cases follows), List.flatten_singleton]
  | @more body separator bodies message isFws rest ih =>
      obtain ⟨behind, rfl, loop⟩ := ih (fun other member => clean other (List.mem_cons_of_mem _ member)) fun isB other member => by
        refine unpadded isB other ?_
        cases bodies with
        | nil => cases rest
        | cons second bodies =>
            rw [List.dropLast_cons_of_ne_nil (List.cons_ne_nil _ _)]
            exact List.mem_cons_of_mem _ member
      have ends := endEncoding_body (notInfix_of_clean (clean body List.mem_cons_self))
        (separator ++ (asciiText "=?" ++ charset ++ [ascii '?', letter, ascii '?'] ++ behind))
      have follows := @encodedStartParse_intro charset behind letter encoding nonempty areEtoken isLetter
      have notLast : bodies ≠ [] := by
        rintro rfl
        cases rest
      have notPadded : ¬ (encoding = .b ∧ body.getLast? = some (ascii '=')) := by
        rintro ⟨isB, padded⟩
        rw [List.dropLast_cons_of_ne_nil notLast] at unpadded
        exact unpadded isB body List.mem_cons_self (List.mem_of_getLast? padded)
      refine ⟨body ++ asciiText "?=" ++ (separator ++ (asciiText "=?" ++ charset ++ [ascii '?', letter, ascii '?'] ++ behind)), ?_, fun before => ?_⟩
      · simp only [encodedWordText, List.append_assoc]
      · have unfolded : skipFws (separator ++ (asciiText "=?" ++ charset ++ [ascii '?', letter, ascii '?'] ++ behind)) =
            asciiText "=?" ++ charset ++ [ascii '?', letter, ascii '?'] ++ behind := by rw [isFws.skip, rest.unfolded.1]
        rw [← unfolded] at follows
        rw [encodedBodyLoop_more ends notPadded follows ⟨sameCaseless_iff.mpr rfl, rfl⟩, loop, List.flatten_cons, List.append_assoc]

end Words

theorem CutText.unpadded {bodies : List (List UInt8)} {text : List UInt8} (cut : CutText .b bodies text) :
    bodies ≠ [] ∧ ∀ body ∈ bodies.dropLast, ascii '=' ∉ body := by
  generalize isB : MailmimeEncoding.b = encoding at cut
  induction cut with
  | lastB chunk => exact ⟨List.cons_ne_nil _ _, fun _ member => absurd member List.not_mem_nil⟩
  | @moreB chunk bodies text groups rest ih =>
      obtain ⟨nonempty, later⟩ := ih isB
      refine ⟨List.cons_ne_nil _ _, fun body member => ?_⟩
      rw [List.dropLast_cons_of_ne_nil nonempty] at member
      rcases List.mem_cons.mp member with rfl | isLater
      · exact base64Of_unpadded groups
      · exact later body isLater
  | lastQ | moreQ => cases isB

theorem CutText.bodies {encoding : MailmimeEncoding} {bodies : List (List UInt8)} {text : List UInt8} (cut : CutText encoding bodies text) :
    (∀ body ∈ bodies, ∀ octet ∈ body, octet ≠ 0 ∧ octet ≠ ascii '?') ∧
      (encoding = .b → ∀ body ∈ bodies.dropLast, ascii '=' ∉ body) ∧ decodeEncodedBody encoding bodies.flatten = .ok text := by
  have letters : ∀ byte ∈ base64Encoding ++ [ascii '='], byte ≠ 0 ∧ byte ≠ ascii '?' := by decide +kernel
  have base64 : ∀ text octet, octet ∈ base64Of text → octet ≠ 0 ∧ octet ≠ ascii '?' :=
    fun text octet member => letters octet (List.mem_append.mpr ((base64Of_line text octet member).imp_right List.mem_singleton.mpr))
  -- The bodies together are one encoding of the whole text.
  have joined : (encoding = .b ∧ bodies.flatten = base64Of text) ∨ (encoding = .q ∧ QEncodes bodies.flatten text) := by
    induction cut with
    | lastB chunk => exact .inl ⟨rfl, List.flatten_singleton⟩
    | @moreB chunk bodies text groups _ ih =>
        rcases ih with ⟨-, same⟩ | ⟨impossible, -⟩
        · exact .inl ⟨rfl, by rw [List.flatten_cons, same, base64Of_append groups]⟩
        · cases impossible
    | lastQ isQ => exact .inr ⟨rfl, by rwa [List.flatten_singleton]⟩
    | moreQ isQ _ ih =>
        rcases ih with ⟨impossible, -⟩ | ⟨-, same⟩
        · cases impossible
        · exact .inr ⟨rfl, by rw [List.flatten_cons]; exact isQ.append same⟩
  have octets : ∀ body ∈ bodies, ∀ octet ∈ body, octet ≠ 0 ∧ octet ≠ ascii '?' := by
    intro body isBody octet member
    have inAll : octet ∈ bodies.flatten := List.mem_flatten.mpr ⟨body, isBody, member⟩
    rcases joined with ⟨-, same⟩ | ⟨-, isQ⟩
    · exact base64 text octet (same ▸ inAll)
    · exact isQ.octets octet inAll
  refine ⟨octets, ?_, ?_⟩
  · rintro rfl
    exact cut.unpadded.2
  · have whole : cString bodies.flatten = bodies.flatten := by
      refine cString_eq_self fun octet member => ?_
      obtain ⟨body, isBody, inBody⟩ := List.mem_flatten.mp member
      exact (octets body isBody octet inBody).1
    rcases joined with ⟨rfl, same⟩ | ⟨rfl, isQ⟩
    · rw [decodeEncodedBody, whole, same, mailmimeBase64BodyParse_base64Of]
    · rw [decodeEncodedBody, whole, isQ.parse]

/-- The charset that the text is converted from. -/
def wdCharsetOf (charset : List UInt8) : List UInt8 := if sameCaseless charset (asciiText "utf8") then asciiText "utf-8" else charset

/-- However a text is cut over encoded words, the phrase is the conversion of the whole text. -/
theorem mailmimeEncodedPhraseParse_joined (charconv : List UInt8 → List UInt8 → Except CharconvError (List UInt8)) (defaultFromcode : List UInt8)
    {charset : List UInt8} {letter : UInt8} {encoding : MailmimeEncoding} {bodies : List (List UInt8)} {text message converted : List UInt8}
    (nonempty : charset ≠ []) (areEtoken : ∀ octet ∈ charset, isEtokenChar octet = true) (isLetter : tolower letter = encoding.letter)
    (nulFree : NulFree text) (cut : CutText encoding bodies text) (joined : JoinedWords charset letter bodies message)
    (converts : charconv (wdCharsetOf charset) text = .ok converted) :
    mailmimeEncodedPhraseParse charconv defaultFromcode message = .ok (cString converted, []) := by
  have isLetter' : encoding = .q ∧ tolower letter = ascii 'q' ∨ encoding = .b ∧ tolower letter = ascii 'b' := by
    cases encoding with
    | b => exact .inr ⟨rfl, isLetter⟩
    | q => exact .inl ⟨rfl, isLetter⟩
  obtain ⟨octets, unpadded, decoded⟩ := cut.bodies
  obtain ⟨behind, rfl, loop⟩ := encodedBodyLoop_joined nonempty areEtoken isLetter' joined
    (fun body isBody member => (octets body isBody _ member).2 rfl) unpadded
  obtain ⟨unfolded, noFws, noQuote⟩ := joined.unfolded
  have start := @encodedStartParse_intro charset behind letter encoding nonempty areEtoken isLetter'
  have word : mailmimeEncodedWordParse (asciiText "=?" ++ charset ++ [ascii '?', letter, ascii '?'] ++ behind) =
      .ok { word := { wdCharset := wdCharsetOf charset, wdText := text }, hasFwd := false, missingClosingQuote := false, rest := [] } := by
    rw [mailmimeEncodedWordParse]
    simp only [unfolded, noFws, noQuote, Option.getD_none, Option.isSome_none, start, loop, List.nil_append, decoded, cString_eq_self nulFree,
      Bool.false_eq_true, if_false, false_and, decide_false]
    rfl
  have turn : encodedPhraseTurn charconv defaultFromcode { gphrase := [], first := true, type := .error }
        (asciiText "=?" ++ charset ++ [ascii '?', letter, ascii '?'] ++ behind) =
      .ok (.goesOn { gphrase := cString converted, first := false, type := .encodedWord } []) := by
    rw [encodedPhraseTurn, word]
    simp only [addEncodedWord, converts, not_true_eq_false, false_and, if_false, List.nil_append]
  rw [mailmimeEncodedPhraseParse, encodedPhraseLoop_goesOn turn, encodedPhraseLoop_ends (encodedPhraseTurn_nil charconv defaultFromcode)]
  rfl

/-- A letter of two octets, cut in the middle. -/
theorem mailmimeEncodedPhraseParse_joined_latin :
    mailmimeEncodedPhraseParse (fun _ text => .ok text) (asciiText "us-ascii")
      (encodedWordText (asciiText "UTF-8") (ascii 'Q') (asciiText "a=C3") ++ [CR, LF, ascii ' '] ++
        encodedWordText (asciiText "UTF-8") (ascii 'Q') (asciiText "=a9")) = .ok ([ascii 'a', 0xC3, 0xA9], []) := by
  have cut : CutText .q [asciiText "a=C3", asciiText "=a9"] ([ascii 'a', 0xC3] ++ [0xA9]) :=
    .moreQ (.literal (by decide) (@QEncodes.escape 0xC3 (ascii 'C') (ascii '3') _ _ (by decide) (by decide) .nil))
      (.lastQ (@QEncodes.escape 0xA9 (ascii 'a') (ascii '9') _ _ (by decide) (by decide) .nil))
  have fold : IsFws [CR, LF, ascii ' '] := @IsFws.one [CR, LF] (ascii ' ') (by decide) rfl
  exact mailmimeEncodedPhraseParse_joined (fun _ text => .ok text) (asciiText "us-ascii") (by decide) (by decide +kernel) (by decide) (by decide) cut
    (.more (asciiText "a=C3") fold (.last (asciiText "=a9"))) rfl

end Etpan.Mime
