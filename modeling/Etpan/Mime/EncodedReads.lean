import Etpan.Mime.EncodedSplit

namespace Etpan.Mime

open Etpan.Data Etpan.Imf

/-! The pieces of the text of a header field: encoded words, white space, and the words between them. -/

def isBlankOctet (octet : UInt8) : Bool := octet = ascii ' ' || octet = ascii '\t' || octet = CR || octet = LF

/-- `=?charset?encoding?text?=`; the text ends at the first `?=`. -/
def IsEncodedWord (word : List UInt8) : Prop :=
  ∃ charset letter body, word = encodedWordText charset letter body ∧ charset ≠ [] ∧ (∀ octet ∈ charset, isEtokenChar octet = true) ∧
    (tolower letter = ascii 'b' ∨ tolower letter = ascii 'q') ∧ ¬ asciiText "?=" <:+: body

def StartsEncodedWord (text : List UInt8) : Prop := ∃ word rest, text = word ++ rest ∧ IsEncodedWord word

inductive Piece where
  | encoded (word : List UInt8)
  | raw (octets : List UInt8)
  | blank (octets : List UInt8)

/-- A text in its pieces. No encoded word starts in a raw piece, and raw and blank pieces are as long as they can be. -/
inductive CutPieces : List UInt8 → List Piece → Prop
  | nil : CutPieces [] []
  | encoded {word text pieces} (isWord : IsEncodedWord word) (rest : CutPieces text pieces) : CutPieces (word ++ text) (.encoded word :: pieces)
  | raw {octets text pieces} (nonempty : octets ≠ []) (notBlank : ∀ octet ∈ octets, isBlankOctet octet = false)
      (noWord : ∀ before after, octets = before ++ after → after ≠ [] → ¬ StartsEncodedWord (after ++ text))
      (stops : text = [] ∨ text.head?.any isBlankOctet = true ∨ StartsEncodedWord text) (rest : CutPieces text pieces) :
      CutPieces (octets ++ text) (.raw octets :: pieces)
  | blank {octets text pieces} (nonempty : octets ≠ []) (areBlank : ∀ octet ∈ octets, isBlankOctet octet = true)
      (stops : text.head?.any isBlankOctet = false) (rest : CutPieces text pieces) : CutPieces (octets ++ text) (.blank octets :: pieces)

inductive PieceBefore where
  | start
  | encoded
  | raw

/-- The result shows every raw piece, in order, with one blank where there was white space; what an encoded
word stands for may be any text. Blanks at the end may be left out. -/
inductive Shows : PieceBefore → List Piece → List UInt8 → Prop
  | nil {before} : Shows before [] []
  | encoded {before word pieces result} (text) (rest : Shows .encoded pieces result) : Shows before (.encoded word :: pieces) (text ++ result)
  | raw {before octets pieces result} (rest : Shows .raw pieces result) : Shows before (.raw octets :: pieces) (octets ++ result)
  | leading {octets pieces result} (more : pieces ≠ []) (rest : Shows .start pieces result) : Shows .start (.blank octets :: pieces) result
  | between {octets word pieces result} (rest : Shows .encoded (.encoded word :: pieces) result) :
      Shows .encoded (.blank octets :: .encoded word :: pieces) result
  | spaceAfter {octets pieces result} (more : pieces ≠ []) (rest : Shows .raw pieces result) :
      Shows .raw (.blank octets :: pieces) (ascii ' ' :: result)
  | spaceBefore {octets after pieces result} (rest : Shows .encoded (.raw after :: pieces) result) :
      Shows .encoded (.blank octets :: .raw after :: pieces) (ascii ' ' :: result)
  | trailing {before octets result} (few : result = [] ∨ result = [ascii ' ']) : Shows before [.blank octets] result

/-- What the parser is to do with a message. The conversion from the default charset changes nothing, and
`charconv` knows the charset that stands in for unknown ones. -/
def KeepsText (message : List UInt8) : Prop :=
  ∀ (charconv : List UInt8 → List UInt8 → Except CharconvError (List UInt8)) (defaultFromcode : List UInt8),
    (∀ text, charconv defaultFromcode text = .ok text) → (∀ text, charconv (asciiText "iso-8859-1") text ≠ .error .unknownCharset) →
    (∀ result rest, mailmimeEncodedPhraseParse charconv defaultFromcode message = .ok (result, rest) →
      (∀ octet ∈ rest, isBlankOctet octet = true) ∧ ∀ pieces, CutPieces message pieces → Shows .start pieces result) ∧
    ((∃ octet ∈ message, isBlankOctet octet = false) → (∀ charset text, ∃ converted, charconv charset text = .ok converted) →
      ∃ result rest, mailmimeEncodedPhraseParse charconv defaultFromcode message = .ok (result, rest))

/-- The pieces that the parser keeps: a raw piece has no `=?`, and it is not a double quote in front of an encoded
word; white space with a piece behind it can be folded. -/
structure PlainPieces (pieces : List Piece) : Prop where
  noMark : ∀ octets, .raw octets ∈ pieces → ¬ asciiText "=?" <:+: octets
  unquoted : ∀ before word after, pieces ≠ before ++ .raw [ascii '"'] :: .encoded word :: after
  folded : ∀ before octets after, pieces = before ++ .blank octets :: after → after ≠ [] → IsFws octets

/-! What the two word parsers read at the start of a text in pieces. -/

theorem isWspChar_blank : ∀ octet, isWspChar octet = true → isBlankOctet octet = true := forall_octet (by decide +kernel)

def Solid (text : List UInt8) : Prop := text.head?.any isBlankOctet = false

theorem solid_cons {octet : UInt8} {text : List UInt8} : Solid (octet :: text) ↔ isBlankOctet octet = false := Iff.rfl

theorem solid_nil : Solid [] := rfl

theorem Solid.wsp {text : List UInt8} (solid : Solid text) : text.head?.any isWspChar = false := by
  cases text with
  | nil => rfl
  | cons octet text =>
      rw [solid_cons] at solid
      rw [List.head?_cons, Option.any_some, ← Bool.not_eq_true]
      intro isWsp
      rw [isWspChar_blank octet isWsp] at solid
      cases solid

theorem startsFws_solid {text : List UInt8} (solid : Solid text) : startsFws text = false := by
  cases text with
  | nil => rfl
  | cons octet text =>
      have starts : ∀ octet : UInt8, isBlankOctet octet = false → isWspChar octet = false ∧ octet ≠ LF ∧ octet ≠ CR := forall_octet (by decide +kernel)
      obtain ⟨notWsp, notLF, notCR⟩ := starts octet (solid_cons.mp solid)
      rw [startsFws, notWsp, decide_eq_false notLF, decide_eq_false notCR]
      rfl

theorem skipFws_solid {text : List UInt8} (solid : Solid text) : skipFws text = text ∧ mailimfFwsParse text = none := by
  have starts := startsFws_solid solid
  refine ⟨?_, by rw [mailimfFwsParse, if_neg (by simp [starts])]⟩
  cases text with
  | nil => rfl
  | cons octet text => rw [skipFws, if_neg (by simp [starts])]

theorem startsFws_append {octets text : List UInt8} (nonempty : octets ≠ []) (solid : Solid text) :
    startsFws (octets ++ text) = startsFws octets := by
  obtain ⟨first, others, rfl⟩ := List.exists_cons_of_ne_nil nonempty
  have textWsp := solid.wsp
  have notLF : text.head? ≠ some LF := by
    intro isLF
    rw [Solid, isLF] at solid
    cases solid
  rcases others with _ | ⟨second, others⟩
  · simp only [List.singleton_append, startsFws, List.head?_nil, List.tail_nil, textWsp, Option.any_none, Bool.and_false, notLF, decide_false]
    simp
  · rcases others with _ | ⟨third, others⟩
    · simp only [List.cons_append, List.nil_append, startsFws, List.head?_cons, List.tail_cons, textWsp, List.head?_nil, Option.any_none]
      rfl
    · rfl

theorem skipFws_append {octets text : List UInt8} (solid : Solid text) : skipFws (octets ++ text) = skipFws octets ++ text := by
  induction octets with
  | nil => exact (skipFws_solid solid).1
  | cons octet octets ih =>
      have starts := startsFws_append (List.cons_ne_nil octet octets) solid
      rw [List.cons_append] at starts ⊢
      rw [skipFws, skipFws, starts]
      split_ifs
      · exact ih
      · rfl

theorem IsFws.starts {octets : List UInt8} (isFws : IsFws octets) (text : List UInt8) : startsFws (octets ++ text) = true := by
  cases isFws with
  | one isEnd isWsp =>
      rw [List.append_assoc, List.singleton_append]
      exact (startsFws_lineEnd isEnd isWsp).1
  | more isEnd isWsp rest =>
      rw [List.append_assoc, List.cons_append]
      exact (startsFws_lineEnd isEnd isWsp).1

theorem isFws_of_skipFws {octets : List UInt8} (nonempty : octets ≠ []) (skipped : skipFws octets = []) : IsFws octets := by
  induction length : octets.length using Nat.strong_induction_on generalizing octets with
  | _ count ih =>
      obtain ⟨first, others, rfl⟩ := List.exists_cons_of_ne_nil nonempty
      -- A blank, with its line end, and then the rest.
      have goesOn : ∀ {lineEnd wsp rest}, lineEnd ∈ [[], [LF], [CR, LF]] → isWspChar wsp = true → first :: others = lineEnd ++ wsp :: rest →
          IsFws (first :: others) := by
        intro lineEnd wsp rest isEnd isWsp split
        rw [split] at skipped length ⊢
        rw [(startsFws_lineEnd isEnd isWsp).2] at skipped
        rcases List.eq_nil_or_concat rest with rfl | ⟨_, _, isRest⟩
        · exact .one isEnd isWsp
        · have notNil : rest ≠ [] := by
            rw [isRest]
            simp
          refine .more isEnd isWsp (ih rest.length ?_ notNil skipped rfl)
          rw [List.length_append, List.length_cons] at length
          omega
      have starts : startsFws (first :: others) = true := by
        by_contra stops
        rw [skipFws, if_neg stops] at skipped
        cases skipped
      rw [startsFws, Bool.or_eq_true, Bool.or_eq_true, Bool.and_eq_true, Bool.and_eq_true, Bool.and_eq_true, decide_eq_true_eq, decide_eq_true_eq,
        decide_eq_true_eq] at starts
      rcases starts with (isWsp | ⟨rfl, isWsp⟩) | ⟨⟨rfl, isLF⟩, isWsp⟩
      · exact @goesOn [] _ _ (by decide) isWsp rfl
      · rcases others with _ | ⟨second, others⟩
        · cases isWsp
        · exact @goesOn [LF] _ _ (by decide) isWsp rfl
      · rcases others with _ | ⟨second, _ | ⟨third, others⟩⟩
        · cases isLF
        · cases isWsp
        · obtain rfl := Option.some.inj isLF
          exact @goesOn [CR, LF] _ _ (by decide) isWsp rfl

def IsGap (gap : List UInt8) : Prop := gap = [] ∨ IsFws gap

theorem IsGap.skip {gap text : List UInt8} (isGap : IsGap gap) (solid : Solid text) :
    skipFws (gap ++ text) = text ∧ (mailimfFwsParse (gap ++ text)).isSome = decide (gap ≠ []) := by
  rcases isGap with rfl | isFws
  · rw [List.nil_append, (skipFws_solid solid).1, (skipFws_solid solid).2]
    exact ⟨rfl, rfl⟩
  · have nonempty : gap ≠ [] := by
      rintro rfl
      have starts := isFws.starts []
      cases starts
    rw [isFws.skip, (skipFws_solid solid).1, mailimfFwsParse, if_pos (isFws.starts text), decide_eq_true nonempty]
    exact ⟨rfl, rfl⟩

theorem skipFws_blanks {octets text : List UInt8} (nonempty : octets ≠ []) (areBlank : ∀ octet ∈ octets, isBlankOctet octet = true)
    (solid : Solid text) :
    IsFws octets ∧ skipFws (octets ++ text) = text ∨
      ¬ IsFws octets ∧ ∃ octet rest, skipFws (octets ++ text) = octet :: rest ++ text ∧ isBlankOctet octet = true := by
  rw [skipFws_append solid]
  cases left : skipFws octets with
  | nil => exact .inl ⟨isFws_of_skipFws nonempty left, rfl⟩
  | cons octet rest =>
      refine .inr ⟨fun isFws => ?_, octet, rest, rfl, ?_⟩
      · have all := isFws.skip []
        rw [List.append_nil, left] at all
        cases all
      · have inOctets := (skipFws_suffix octets).subset (left ▸ List.mem_cons_self)
        exact areBlank octet inOctets

/-! ### The start of an encoded word -/

theorem decodeEncodedBody_ok (encoding : MailmimeEncoding) (body : List UInt8) : ∃ decoded, decodeEncodedBody encoding body = .ok decoded := by
  cases encoding with
  | b =>
      rw [decodeEncodedBody, mailmimeBase64BodyParse, mailmimeBase64BodyParseImpl, if_neg (Nat.not_lt_zero _)]
      exact ⟨_, rfl⟩
  | q =>
      rw [decodeEncodedBody, mailmimeQuotedPrintableBodyParse, mailmimeQuotedPrintableBodyParseImpl, if_neg (Nat.not_lt_zero _)]
      exact ⟨_, rfl⟩

theorem encodedStartParse_noMark {text : List UInt8} (noMark : ¬ asciiText "=?" <+: text) : encodedStartParse text = .error .parse := by
  have token : mailimfTokenCaseInsensitiveParse (asciiText "=?") text = none := by
    cases read : mailimfTokenCaseInsensitiveParse (asciiText "=?") text with
    | none => rfl
    | some rest => exact absurd ⟨rest, ((mailimfTokenCaseInsensitiveParse_some isSymbols_start).mp read).symm⟩ noMark
  rw [encodedStartParse, token]

theorem encodedStartParse_mark {text : List UInt8} {start : EncodedStart} (parsed : encodedStartParse text = .ok start) :
    asciiText "=?" <+: text := by
  obtain ⟨ch, rfl, -⟩ := encodedStartParse_ok parsed
  rw [List.append_assoc, List.append_assoc]
  exact List.prefix_append _ _

theorem encodedStartParse_error {text : List UInt8} {error : MailimfError} (failed : encodedStartParse text = .error error) :
    error = .parse ∨ error = .inval := by
  rw [encodedStartParse] at failed
  split at failed
  · exact .inl (Except.error.inj failed).symm
  split at failed
  · exact .inl (Except.error.inj failed).symm
  split at failed
  · exact .inl (Except.error.inj failed).symm
  next coded _ =>
  split at failed
  · next isEncoding =>
      cases coded with
      | nil =>
          rw [mailmimeEncodingParse] at isEncoding
          exact .inl ((Except.error.inj failed).symm.trans (Except.error.inj isEncoding).symm)
      | cons ch rest =>
          rw [mailmimeEncodingParse] at isEncoding
          split_ifs at isEncoding
          exact .inr ((Except.error.inj failed).symm.trans (Except.error.inj isEncoding).symm)
  split at failed
  · exact .inl (Except.error.inj failed).symm
  · cases failed

theorem IsEncodedWord.start {word : List UInt8} (isWord : IsEncodedWord word) (tail : List UInt8) :
    ∃ start body, encodedStartParse (word ++ tail) = .ok start ∧ start.charset ≠ [] ∧ endEncoding start.rest = (body, asciiText "?=" ++ tail) := by
  obtain ⟨charset, letter, body, rfl, nonempty, areEtoken, isLetter, clean⟩ := isWord
  obtain ⟨encoding, isLetter'⟩ : ∃ encoding : MailmimeEncoding,
      encoding = .q ∧ tolower letter = ascii 'q' ∨ encoding = .b ∧ tolower letter = ascii 'b' := by
    rcases isLetter with isB | isQ
    · exact ⟨.b, .inr ⟨rfl, isB⟩⟩
    · exact ⟨.q, .inl ⟨rfl, isQ⟩⟩
  have start := @encodedStartParse_intro charset (body ++ asciiText "?=" ++ tail) letter encoding nonempty areEtoken isLetter'
  have split : encodedWordText charset letter body ++ tail =
      asciiText "=?" ++ charset ++ [ascii '?', letter, ascii '?'] ++ (body ++ asciiText "?=" ++ tail) := by
    simp only [encodedWordText, List.append_assoc]
  rw [← split] at start
  exact ⟨_, body, start, nonempty, endEncoding_body clean tail⟩

theorem IsEncodedWord.mark {word : List UInt8} (isWord : IsEncodedWord word) (tail : List UInt8) : asciiText "=?" <+: word ++ tail := by
  obtain ⟨start, _, parsed, -, -⟩ := isWord.start tail
  exact encodedStartParse_mark parsed

theorem startsEncodedWord_of_end {text : List UInt8} {start : EncodedStart} (parsed : encodedStartParse text = .ok start)
    (found : asciiText "?=" <:+: start.rest) : StartsEncodedWord text := by
  obtain ⟨letter, split, nonempty, areEtoken, isLetter⟩ := encodedStartParse_ok parsed
  obtain ⟨body, after, isRest, clean⟩ := @exists_infix_first (asciiText "?=") _ (List.cons_ne_nil _ _) found
  refine ⟨encodedWordText start.charset letter body, after, ?_, start.charset, letter, body, rfl, nonempty, areEtoken, ?_, clean⟩
  · rw [split, isRest]
    simp only [encodedWordText, List.append_assoc]
  · rcases isLetter with ⟨-, isQ⟩ | ⟨-, isB⟩
    · exact .inr isQ
    · exact .inl isB

theorem endEncoding_of_noWord {text : List UInt8} {start : EncodedStart} (parsed : encodedStartParse text = .ok start)
    (noWord : ¬ StartsEncodedWord text) : endEncoding start.rest = (start.rest, []) :=
  endEncoding_open fun found => noWord (startsEncodedWord_of_end parsed found)

end Etpan.Mime
