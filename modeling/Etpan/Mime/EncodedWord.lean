import Etpan.Mime.Base64
import Etpan.Mime.Message
import Etpan.Mime.QuotedPrintableParse

namespace Etpan.Mime

open Etpan.Data Etpan.Imf

/-! `mailmime_encoded_phrase_parse` of `low-level/mime/mailmime_decode.c`: the text of a header field
with encoded words in it.

As in `Imf/Lexical` a parser takes the octets from its position on and returns what is left. -/

inductive MailmimeEncoding where
  | b
  | q
deriving Repr, DecidableEq

structure MailmimeEncodedWord where
  wdCharset : List UInt8
  wdText : List UInt8
deriving Repr, DecidableEq

def isEtokenChar (uch : UInt8) : Bool := !(uch < 31 || uch ∈ asciiText " ()<>@,;:\"/[]?=")

def mailimfTokenCaseInsensitiveParse (token text : List UInt8) : Option (List UInt8) :=
  if sameCaseless (text.take token.length) token then some (text.drop token.length) else none

def mailmimeCharsetParse (text : List UInt8) : Option (List UInt8 × List UInt8) :=
  if text.takeWhile isEtokenChar = [] then none else some (text.takeWhile isEtokenChar, text.dropWhile isEtokenChar)

def mailmimeEncodingParse : List UInt8 → Except MailimfError (MailmimeEncoding × List UInt8)
  | [] => .error .parse
  | ch :: rest =>
      if tolower ch = ascii 'q' then .ok (.q, rest)
      else if tolower ch = ascii 'b' then .ok (.b, rest)
      else .error .inval

/-- What stands before the text of an encoded word, and the rest. -/
structure EncodedStart where
  charset : List UInt8
  encoding : MailmimeEncoding
  rest : List UInt8
deriving Repr, DecidableEq

/-- The source has these five steps twice: for the first word, and for the word that it looks forward to. -/
def encodedStartParse (text : List UInt8) : Except MailimfError EncodedStart :=
  match mailimfTokenCaseInsensitiveParse (asciiText "=?") text with
  | none => .error .parse
  | some text =>
      match mailmimeCharsetParse text with
      | none => .error .parse
      | some (charset, text) =>
          match mailimfCharParse (ascii '?') text with
          | none => .error .parse
          | some text =>
              match mailmimeEncodingParse text with
              | .error error => .error error
              | .ok (encoding, text) =>
                  match mailimfCharParse (ascii '?') text with
                  | none => .error .parse
                  | some rest => .ok { charset, encoding, rest }

/-- The octets before the first `?=`, and the rest from there on. -/
def endEncoding : List UInt8 → List UInt8 × List UInt8
  | [] => ([], [])
  | ch :: rest =>
      if ch = ascii '?' ∧ rest.head? = some (ascii '=') then ([], ch :: rest)
      else (ch :: (endEncoding rest).1, (endEncoding rest).2)

theorem endEncoding_append (text : List UInt8) : (endEncoding text).1 ++ (endEncoding text).2 = text := by
  induction text with
  | nil => rfl
  | cons ch rest ih =>
      rw [endEncoding]
      split_ifs
      · rfl
      · rw [List.cons_append, ih]

def IsSymbols (token : List UInt8) : Prop := ∀ symbol ∈ token, ∀ octet, tolower octet = tolower symbol → octet = symbol

theorem eq_of_map_tolower {token text : List UInt8} (symbols : IsSymbols token) (same : text.map tolower = token.map tolower) : text = token := by
  induction token generalizing text with
  | nil => exact List.map_eq_nil_iff.mp same
  | cons symbol token ih =>
      cases text with
      | nil => cases same
      | cons octet text =>
          rw [List.map_cons, List.map_cons, List.cons.injEq] at same
          rw [symbols symbol List.mem_cons_self octet same.1, ih (fun other member => symbols other (List.mem_cons_of_mem _ member)) same.2]

theorem mailimfTokenCaseInsensitiveParse_some {token text rest : List UInt8} (symbols : IsSymbols token) :
    mailimfTokenCaseInsensitiveParse token text = some rest ↔ text = token ++ rest := by
  rw [mailimfTokenCaseInsensitiveParse]
  constructor
  · intro parsed
    split_ifs at parsed with same
    cases parsed
    conv_lhs => rw [← List.take_append_drop token.length text, eq_of_map_tolower symbols (sameCaseless_iff.mp same)]
  · rintro rfl
    rw [List.take_left, if_pos (sameCaseless_iff.mpr rfl), List.drop_left]

theorem isSymbols_start : IsSymbols (asciiText "=?") := by
  intro symbol member
  rcases List.mem_pair.mp member with rfl | rfl
  · exact forall_octet (by decide +kernel)
  · exact forall_octet (by decide +kernel)

theorem isSymbols_end : IsSymbols (asciiText "?=") := by
  intro symbol member
  rcases List.mem_pair.mp member with rfl | rfl
  · exact forall_octet (by decide +kernel)
  · exact forall_octet (by decide +kernel)

theorem mailmimeCharsetParse_some {text charset rest : List UInt8} (parsed : mailmimeCharsetParse text = some (charset, rest)) :
    text = charset ++ rest ∧ charset ≠ [] ∧ ∀ octet ∈ charset, isEtokenChar octet = true := by
  rw [mailmimeCharsetParse] at parsed
  split_ifs at parsed with nonempty
  obtain ⟨rfl, rfl⟩ := Prod.mk.inj (Option.some.inj parsed)
  exact ⟨(List.takeWhile_append_dropWhile).symm, nonempty, fun octet member => List.mem_takeWhile_imp member⟩

theorem mailmimeEncodingParse_cons {text rest : List UInt8} {encoding : MailmimeEncoding} (parsed : mailmimeEncodingParse text = .ok (encoding, rest)) :
    ∃ ch, text = ch :: rest ∧ (encoding = .q ∧ tolower ch = ascii 'q' ∨ encoding = .b ∧ tolower ch = ascii 'b') := by
  cases text with
  | nil => cases parsed
  | cons ch after =>
      rw [mailmimeEncodingParse] at parsed
      split_ifs at parsed with isQ isB
      · cases parsed
        exact ⟨ch, rfl, .inl ⟨rfl, isQ⟩⟩
      · cases parsed
        exact ⟨ch, rfl, .inr ⟨rfl, isB⟩⟩

theorem encodedStartParse_ok {text : List UInt8} {start : EncodedStart} (parsed : encodedStartParse text = .ok start) :
    ∃ ch, text = asciiText "=?" ++ start.charset ++ [ascii '?', ch, ascii '?'] ++ start.rest ∧ start.charset ≠ [] ∧
      (∀ octet ∈ start.charset, isEtokenChar octet = true) ∧
      (start.encoding = .q ∧ tolower ch = ascii 'q' ∨ start.encoding = .b ∧ tolower ch = ascii 'b') := by
  rw [encodedStartParse] at parsed
  split at parsed
  · cases parsed
  next marked isMarked =>
  split at parsed
  · cases parsed
  next charset behind isCharset =>
  split at parsed
  · cases parsed
  next coded isCoded =>
  split at parsed
  · cases parsed
  next encoding ends isEncoding =>
  split at parsed
  · cases parsed
  next rest isRest =>
  cases parsed
  obtain ⟨ch, rfl, isCh⟩ := mailmimeEncodingParse_cons isEncoding
  obtain rfl := mailimfCharParse_some.mp isRest
  obtain rfl := mailimfCharParse_some.mp isCoded
  obtain ⟨rfl, nonempty, areEtoken⟩ := mailmimeCharsetParse_some isCharset
  obtain rfl := (mailimfTokenCaseInsensitiveParse_some isSymbols_start).mp isMarked
  refine ⟨ch, ?_, nonempty, areEtoken, isCh⟩
  simp only [List.append_assoc, List.cons_append, List.nil_append]

theorem encodedStartParse_intro {charset rest : List UInt8} {letter : UInt8} {encoding : MailmimeEncoding} (nonempty : charset ≠ [])
    (areEtoken : ∀ octet ∈ charset, isEtokenChar octet = true)
    (isLetter : encoding = .q ∧ tolower letter = ascii 'q' ∨ encoding = .b ∧ tolower letter = ascii 'b') :
    encodedStartParse (asciiText "=?" ++ charset ++ [ascii '?', letter, ascii '?'] ++ rest) = .ok { charset, encoding, rest } := by
  have mark : isEtokenChar (ascii '?') = false := by decide
  have marked : mailimfTokenCaseInsensitiveParse (asciiText "=?") (asciiText "=?" ++ charset ++ [ascii '?', letter, ascii '?'] ++ rest) =
      some (charset ++ ascii '?' :: letter :: ascii '?' :: rest) := by
    rw [mailimfTokenCaseInsensitiveParse_some isSymbols_start]
    simp only [List.append_assoc, List.cons_append, List.nil_append]
  have isCharset : mailmimeCharsetParse (charset ++ ascii '?' :: letter :: ascii '?' :: rest) =
      some (charset, ascii '?' :: letter :: ascii '?' :: rest) := by
    have stops : (ascii '?' :: letter :: ascii '?' :: rest).takeWhile isEtokenChar = [] := List.takeWhile_cons_of_neg (by simp [mark])
    have stays : (ascii '?' :: letter :: ascii '?' :: rest).dropWhile isEtokenChar = ascii '?' :: letter :: ascii '?' :: rest :=
      List.dropWhile_cons_of_neg (by simp [mark])
    rw [mailmimeCharsetParse, List.takeWhile_append_of_pos areEtoken, List.dropWhile_append_of_pos areEtoken, stops, stays, List.append_nil,
      if_neg nonempty]
  have isEncoding : mailmimeEncodingParse (letter :: ascii '?' :: rest) = .ok (encoding, ascii '?' :: rest) := by
    rw [mailmimeEncodingParse]
    rcases isLetter with ⟨rfl, isQ⟩ | ⟨rfl, isB⟩
    · rw [if_pos isQ]
    · rw [if_neg (by rw [isB]; decide), if_pos isB]
  rw [encodedStartParse, marked]
  dsimp only
  rw [isCharset]
  dsimp only
  rw [mailimfCharParse_some.mpr rfl]
  dsimp only
  rw [isEncoding]
  dsimp only
  rw [mailimfCharParse_some.mpr rfl]

theorem endEncoding_body {body : List UInt8} (clean : ¬ asciiText "?=" <:+: body) (tail : List UInt8) :
    endEncoding (body ++ asciiText "?=" ++ tail) = (body, asciiText "?=" ++ tail) := by
  induction body with
  | nil => rfl
  | cons ch body ih =>
      have notMark : ¬ (ch = ascii '?' ∧ (body ++ asciiText "?=" ++ tail).head? = some (ascii '=')) := by
        rintro ⟨rfl, next⟩
        cases body with
        | nil => cases next
        | cons second body =>
            obtain rfl := Option.some.inj next
            exact clean ⟨[], body, rfl⟩
      have later := ih fun found => clean (found.trans (List.suffix_cons ch body).isInfix)
      rw [List.cons_append, List.cons_append, endEncoding, if_neg notMark, later]

theorem endEncoding_open {text : List UInt8} (clean : ¬ asciiText "?=" <:+: text) : endEncoding text = (text, []) := by
  induction text with
  | nil => rfl
  | cons ch rest ih =>
      have notMark : ¬ (ch = ascii '?' ∧ rest.head? = some (ascii '=')) := by
        rintro ⟨rfl, next⟩
        obtain ⟨behind, rfl⟩ := List.head?_eq_some_iff.mp next
        exact clean ⟨[], behind, rfl⟩
      have later := ih fun found => clean (found.trans (List.suffix_cons ch rest).isInfix)
      rw [endEncoding, if_neg notMark, later]

theorem exists_infix_first {token text : List UInt8} (nonempty : token ≠ []) (found : token <:+: text) :
    ∃ before after, text = before ++ token ++ after ∧ ¬ token <:+: before := by
  have notInNil : ¬ token <:+: [] := fun inNil => nonempty (List.infix_nil.mp inNil)
  induction text with
  | nil => exact absurd found notInNil
  | cons ch rest ih =>
      by_cases here : token <+: ch :: rest
      · obtain ⟨after, same⟩ := here
        exact ⟨[], after, same.symm, notInNil⟩
      · have later : token <:+: rest := (List.infix_cons_iff.mp found).resolve_left here
        obtain ⟨before, after, rfl, clean⟩ := ih later
        refine ⟨ch :: before, after, rfl, fun inBefore => ?_⟩
        rcases List.infix_cons_iff.mp inBefore with start | inside
        · refine here (start.trans ?_)
          rw [List.append_assoc, ← List.cons_append]
          exact List.prefix_append _ _
        · exact clean inside

theorem encodedStartParse_shorter {text : List UInt8} {start : EncodedStart} (parsed : encodedStartParse text = .ok start) :
    start.rest.length < text.length := by
  obtain ⟨ch, rfl, -, -, -⟩ := encodedStartParse_ok parsed
  simp only [List.length_append, List.length_cons]
  omega

/-- The texts of this and the following words of the same charset and encoding; a word that ends with base64
padding is the last. -/
def encodedBodyLoop (charset : List UInt8) (encoding : MailmimeEncoding) (body text : List UInt8) : List UInt8 × List UInt8 :=
  let copied := (endEncoding text).1
  let hasBase64Padding := encoding = .b ∧ copied.getLast? = some (ascii '=')
  let body := body ++ copied
  match ends : mailimfTokenCaseInsensitiveParse (asciiText "?=") (endEncoding text).2 with
  | none => (body, (endEncoding text).2)
  | some after =>
      if hasBase64Padding then (body, after)
      else
        match follows : encodedStartParse (skipFws after) with
        | .error _ => (body, after)
        | .ok lookfwd =>
            if sameCaseless charset lookfwd.charset ∧ encoding = lookfwd.encoding then encodedBodyLoop charset encoding body lookfwd.rest
            else (body, after)
termination_by text.length
decreasing_by
  have behind := congrArg List.length (endEncoding_append text)
  rw [(mailimfTokenCaseInsensitiveParse_some isSymbols_end).mp ends] at behind
  have skipped := (skipFws_suffix after).length_le
  have shorter := encodedStartParse_shorter follows
  simp only [List.length_append] at behind
  omega

section BodyLoop

variable {charset : List UInt8} {encoding : MailmimeEncoding} {body text copied after : List UInt8}

theorem encodedBodyLoop_open (ends : endEncoding text = (copied, [])) : encodedBodyLoop charset encoding body text = (body ++ copied, []) := by
  have token : mailimfTokenCaseInsensitiveParse (asciiText "?=") [] = none := rfl
  rw [encodedBodyLoop, ends]
  dsimp only
  split
  · rfl
  · next found =>
      rw [token] at found
      cases found

variable (ends : endEncoding text = (copied, asciiText "?=" ++ after))

include ends

theorem encodedBodyLoop_more {lookfwd : EncodedStart} (unpadded : ¬ (encoding = .b ∧ copied.getLast? = some (ascii '=')))
    (follows : encodedStartParse (skipFws after) = .ok lookfwd) (same : sameCaseless charset lookfwd.charset = true ∧ encoding = lookfwd.encoding) :
    encodedBodyLoop charset encoding body text = encodedBodyLoop charset encoding (body ++ copied) lookfwd.rest := by
  have token : mailimfTokenCaseInsensitiveParse (asciiText "?=") (asciiText "?=" ++ after) = some after :=
    (mailimfTokenCaseInsensitiveParse_some isSymbols_end).mpr rfl
  rw [encodedBodyLoop, ends]
  dsimp only
  split
  · next failed =>
      rw [token] at failed
      cases failed
  · next after' found =>
      rw [token] at found
      cases found
      rw [if_neg unpadded]
      split
      · next failed =>
          rw [follows] at failed
          cases failed
      · next lookfwd' found =>
          rw [follows] at found
          cases found
          rw [if_pos same]

theorem encodedBodyLoop_last (stops : encoding = .b ∧ copied.getLast? = some (ascii '=') ∨
      ∀ lookfwd, encodedStartParse (skipFws after) = .ok lookfwd → ¬ (sameCaseless charset lookfwd.charset = true ∧ encoding = lookfwd.encoding)) :
    encodedBodyLoop charset encoding body text = (body ++ copied, after) := by
  have token : mailimfTokenCaseInsensitiveParse (asciiText "?=") (asciiText "?=" ++ after) = some after :=
    (mailimfTokenCaseInsensitiveParse_some isSymbols_end).mpr rfl
  rw [encodedBodyLoop, ends]
  dsimp only
  split
  · next failed =>
      rw [token] at failed
      cases failed
  · next after' found =>
      rw [token] at found
      cases found
      split_ifs with padded
      · rfl
      · split
        · rfl
        · next lookfwd follows => rw [if_neg (stops.resolve_left padded lookfwd follows)]

end BodyLoop

/-- What `mailmime_encoded_word_parse` returns. -/
structure EncodedWordRead where
  word : MailmimeEncodedWord
  hasFwd : Bool
  missingClosingQuote : Bool
  rest : List UInt8
deriving Repr, DecidableEq

/-- The decoders take the body as a string. -/
def decodeEncodedBody (encoding : MailmimeEncoding) (body : List UInt8) : Except MailimfError (List UInt8) :=
  match encoding with
  | .b => (mailmimeBase64BodyParse (cString body) 0).map Prod.snd
  | .q => (mailmimeQuotedPrintableBodyParse (cString body) 0 true).map Prod.snd

def mailmimeEncodedWordParse (text : List UInt8) : Except MailimfError EncodedWordRead :=
  let hasFwd := (mailimfFwsParse text).isSome
  let unfolded := skipFws text
  let openingQuote := (mailimfCharParse (ascii '"') unfolded).isSome
  match encodedStartParse ((mailimfCharParse (ascii '"') unfolded).getD unfolded) with
  | .error error => .error error
  | .ok start =>
      let (body, rest) := encodedBodyLoop start.charset start.encoding [] start.rest
      match decodeEncodedBody start.encoding body with
      | .error error => .error error
      | .ok decoded =>
          let closingQuote := mailimfCharParse (ascii '"') rest
          let missingClosingQuote := openingQuote ∧ closingQuote = none
          let rest := if openingQuote then closingQuote.getD rest else rest
          let charset := if sameCaseless start.charset (asciiText "utf8") then asciiText "utf-8" else start.charset
          .ok { word := { wdCharset := charset, wdText := cString decoded }, hasFwd, missingClosingQuote, rest }

/-- The index where the word ends, which starts at 0; `state` is 1 behind an equals sign. -/
def nonEncodedEnd : List UInt8 → Bool → Nat → Nat
  | [], _, curToken => curToken
  | ch :: rest, state, curToken =>
      if ch = ascii ' ' ∨ ch = ascii '\t' ∨ ch = CR ∨ ch = LF then curToken
      else if ch = ascii '=' then nonEncodedEnd rest true (curToken + 1)
      else if ch = ascii '?' ∧ state then curToken - 1
      else nonEncodedEnd rest false (curToken + 1)

structure NonEncodedWordRead where
  text : List UInt8
  hasFwd : Bool
  rest : List UInt8
deriving Repr, DecidableEq

def mailmimeNonEncodedWordParse (text : List UInt8) : Option NonEncodedWordRead :=
  let hasFwd := (mailimfFwsParse text).isSome
  let unfolded := skipFws text
  let length := nonEncodedEnd unfolded false 0
  if length = 0 then none else some { text := unfolded.take length, hasFwd, rest := unfolded.drop length }

inductive CharconvError where
  | unknownCharset
  | memory
  | conv
deriving Repr, DecidableEq

/-- `TYPE_ERROR`, `TYPE_WORD` and `TYPE_ENCODED_WORD`. -/
inductive PhraseType where
  | error
  | word
  | encodedWord
deriving Repr, DecidableEq

structure EncodedPhrase where
  gphrase : List UInt8
  first : Bool
  type : PhraseType
deriving Repr, DecidableEq

inductive PhraseTurn where
  | goesOn (phrase : EncodedPhrase) (rest : List UInt8)
  | ends (phrase : EncodedPhrase) (rest : List UInt8)

section Charconv

/-! `charconv` takes the charset of a text and the text, and gives the text in `tocode`. -/

variable (charconv : List UInt8 → List UInt8 → Except CharconvError (List UInt8)) (defaultFromcode : List UInt8)

/-- The second result is whether the last error code is `MAIL_CHARCONV_ERROR_UNKNOWN_CHARSET`, which has the
value of `MAILIMF_ERROR_PARSE`. -/
def addEncodedWord (phrase : EncodedPhrase) (read : EncodedWordRead) : Except MailimfError (EncodedPhrase × Bool) :=
  let gphrase :=
    if ¬ phrase.first ∧ read.hasFwd ∧ phrase.type ≠ .encodedWord then phrase.gphrase ++ [ascii ' '] else phrase.gphrase
  let added (wordutf8 : List UInt8) : EncodedPhrase := { gphrase := gphrase ++ cString wordutf8, first := false, type := .encodedWord }
  match charconv read.word.wdCharset read.word.wdText with
  | .ok wordutf8 => .ok (added wordutf8, false)
  | .error .memory => .error .memory
  | .error .conv => .error .parse
  | .error .unknownCharset =>
      match charconv (asciiText "iso-8859-1") read.word.wdText with
      | .ok wordutf8 => .ok (added wordutf8, false)
      | .error .memory => .error .memory
      | .error .conv => .error .parse
      | .error .unknownCharset => .ok (added [], true)

def addNonEncodedWord (phrase : EncodedPhrase) (read : NonEncodedWordRead) : Except MailimfError EncodedPhrase :=
  let gphrase := if ¬ phrase.first ∧ read.hasFwd then phrase.gphrase ++ [ascii ' '] else phrase.gphrase
  match charconv defaultFromcode (cString read.text) with
  | .ok wordutf8 => .ok { gphrase := gphrase ++ cString wordutf8, first := false, type := .word }
  | .error .memory => .error .memory
  | .error _ => .error .parse

/-- The part of a turn for a word that is not an encoded one, or for the blanks at the end. -/
def nonEncodedTurn (phrase : EncodedPhrase) (text : List UInt8) : Except MailimfError PhraseTurn :=
  match mailmimeNonEncodedWordParse text with
  | some read =>
      match addNonEncodedWord charconv defaultFromcode phrase read with
      | .error error => .error error
      | .ok phrase => .ok (.goesOn phrase read.rest)
  | none =>
      match mailimfFwsParse text with
      | none => .ok (.ends phrase text)
      | some rest => .ok (.ends { phrase with gphrase := phrase.gphrase ++ [ascii ' '], first := false } rest)

def encodedPhraseTurn (phrase : EncodedPhrase) (text : List UInt8) : Except MailimfError PhraseTurn :=
  match mailmimeEncodedWordParse text with
  | .error .parse => nonEncodedTurn charconv defaultFromcode phrase text
  | .error error => .error error
  | .ok read =>
      match addEncodedWord charconv phrase read with
      | .error error => .error error
      | .ok (phrase, false) => .ok (.goesOn phrase read.rest)
      | .ok (phrase, true) => nonEncodedTurn charconv defaultFromcode phrase read.rest

end Charconv

theorem endEncoding_behind {text after : List UInt8} (ends : mailimfTokenCaseInsensitiveParse (asciiText "?=") (endEncoding text).2 = some after) :
    text = (endEncoding text).1 ++ asciiText "?=" ++ after := by
  conv_lhs => rw [← endEncoding_append text, (mailimfTokenCaseInsensitiveParse_some isSymbols_end).mp ends]
  rw [List.append_assoc]

theorem encodedBodyLoop_suffix (charset : List UInt8) (encoding : MailmimeEncoding) (body text : List UInt8) :
    (encodedBodyLoop charset encoding body text).2 <:+ text := by
  have behind : ∀ {text after : List UInt8}, mailimfTokenCaseInsensitiveParse (asciiText "?=") (endEncoding text).2 = some after → after <:+ text :=
    fun ends => ⟨_, (endEncoding_behind ends).symm⟩
  fun_induction encodedBodyLoop charset encoding body text with
  | case1 body text copied body' ends => exact ⟨_, endEncoding_append text⟩
  | case2 body text copied hasPadding body' after ends padded => exact behind ends
  | case3 body text copied hasPadding body' after ends notPadded error follows => exact behind ends
  | case4 body text copied hasPadding body' after ends notPadded lookfwd follows same ih =>
      obtain ⟨ch, split, -⟩ := encodedStartParse_ok follows
      have inSkipped : lookfwd.rest <:+ skipFws after := ⟨_, split.symm⟩
      exact ih.trans (inSkipped.trans ((skipFws_suffix after).trans (behind ends)))
  | case5 body text copied hasPadding body' after ends notPadded lookfwd follows differs => exact behind ends

theorem mailimfCharParse_getD_suffix (token : UInt8) (text : List UInt8) : (mailimfCharParse token text).getD text <:+ text := by
  cases parsed : mailimfCharParse token text with
  | none => exact List.suffix_refl text
  | some rest => exact ⟨[token], (mailimfCharParse_some.mp parsed).symm⟩

theorem mailmimeEncodedWordParse_shorter {text : List UInt8} {read : EncodedWordRead} (parsed : mailmimeEncodedWordParse text = .ok read) :
    read.rest.length < text.length := by
  rw [mailmimeEncodedWordParse] at parsed
  dsimp only at parsed
  split at parsed
  · cases parsed
  next start isStart =>
  split at parsed
  · cases parsed
  cases parsed
  have unfolded := (skipFws_suffix text).length_le
  have unquoted := (mailimfCharParse_getD_suffix (ascii '"') (skipFws text)).length_le
  have shorter := encodedStartParse_shorter isStart
  have looped := (encodedBodyLoop_suffix start.charset start.encoding [] start.rest).length_le
  have closed := (mailimfCharParse_getD_suffix (ascii '"') (encodedBodyLoop start.charset start.encoding [] start.rest).2).length_le
  dsimp only
  split_ifs
  · omega
  · omega

theorem mailmimeNonEncodedWordParse_shorter {text : List UInt8} {read : NonEncodedWordRead} (parsed : mailmimeNonEncodedWordParse text = some read) :
    read.rest.length < text.length := by
  rw [mailmimeNonEncodedWordParse] at parsed
  split_ifs at parsed with nothing
  cases parsed
  have unfolded := (skipFws_suffix text).length_le
  have nonempty : skipFws text ≠ [] := by
    intro isEmpty
    rw [isEmpty] at nothing
    exact nothing rfl
  have positive := List.length_pos_iff.mpr nonempty
  dsimp only
  rw [List.length_drop]
  omega

section Loop

variable (charconv : List UInt8 → List UInt8 → Except CharconvError (List UInt8)) (defaultFromcode : List UInt8)

theorem nonEncodedTurn_shorter {phrase phrase' : EncodedPhrase} {text rest : List UInt8}
    (turned : nonEncodedTurn charconv defaultFromcode phrase text = .ok (.goesOn phrase' rest)) : rest.length < text.length := by
  rw [nonEncodedTurn] at turned
  split at turned
  · next read parsed =>
      split at turned
      · cases turned
      · cases turned
        exact mailmimeNonEncodedWordParse_shorter parsed
  · split at turned <;> cases turned

theorem encodedPhraseTurn_shorter {phrase phrase' : EncodedPhrase} {text rest : List UInt8}
    (turned : encodedPhraseTurn charconv defaultFromcode phrase text = .ok (.goesOn phrase' rest)) : rest.length < text.length := by
  rw [encodedPhraseTurn] at turned
  split at turned
  · exact nonEncodedTurn_shorter charconv defaultFromcode turned
  · cases turned
  next read parsed =>
  have shorter := mailmimeEncodedWordParse_shorter parsed
  split at turned
  · cases turned
  · cases turned
    exact shorter
  · exact (nonEncodedTurn_shorter charconv defaultFromcode turned).trans shorter

def encodedPhraseLoop (phrase : EncodedPhrase) (text : List UInt8) : Except MailimfError (EncodedPhrase × List UInt8) :=
  match turned : encodedPhraseTurn charconv defaultFromcode phrase text with
  | .error error => .error error
  | .ok (.ends phrase rest) => .ok (phrase, rest)
  | .ok (.goesOn phrase rest) => encodedPhraseLoop phrase rest
termination_by text.length
decreasing_by exact encodedPhraseTurn_shorter charconv defaultFromcode turned

variable {charconv defaultFromcode} {phrase phrase' : EncodedPhrase} {text rest : List UInt8}

theorem encodedPhraseLoop_goesOn (turned : encodedPhraseTurn charconv defaultFromcode phrase text = .ok (.goesOn phrase' rest)) :
    encodedPhraseLoop charconv defaultFromcode phrase text = encodedPhraseLoop charconv defaultFromcode phrase' rest := by
  rw [encodedPhraseLoop]
  split <;> rename_i found <;> rw [turned] at found <;> cases found
  rfl

theorem encodedPhraseLoop_ends (turned : encodedPhraseTurn charconv defaultFromcode phrase text = .ok (.ends phrase' rest)) :
    encodedPhraseLoop charconv defaultFromcode phrase text = .ok (phrase', rest) := by
  rw [encodedPhraseLoop]
  split <;> rename_i found <;> rw [turned] at found <;> cases found
  rfl

theorem encodedPhraseLoop_error {error : MailimfError} (turned : encodedPhraseTurn charconv defaultFromcode phrase text = .error error) :
    encodedPhraseLoop charconv defaultFromcode phrase text = .error error := by
  rw [encodedPhraseLoop]
  split <;> rename_i found <;> rw [turned] at found <;> cases found
  rfl

variable (charconv defaultFromcode)

theorem encodedPhraseTurn_nil : encodedPhraseTurn charconv defaultFromcode phrase [] = .ok (.ends phrase []) := rfl

/-- The result and what is left of the message. -/
def mailmimeEncodedPhraseParse (message : List UInt8) : Except MailimfError (List UInt8 × List UInt8) :=
  match encodedPhraseLoop charconv defaultFromcode { gphrase := [], first := true, type := .error } message with
  | .error error => .error error
  | .ok (phrase, rest) => if phrase.first ∧ rest ≠ [] then .error .parse else .ok (phrase.gphrase, rest)

end Loop

end Etpan.Mime
