import Etpan.Imap.ListRead
import Etpan.Imap.ResponseParse

namespace Etpan.Imap

open Etpan.Data Etpan.Stream

/-! The search commands of `low-level/imap/condstore.c`. -/

/-- The caller takes over the first search data of CONDSTORE. -/
def getSearchData (info : ResponseInfo) : Option (List UInt32 × UInt64) :=
  info.rspExtensionList.findSome? fun extData =>
    match extData with
    | .condstoreSearchData csSearchResult csModseqValue => some (csSearchResult, csModseqValue)
    | _ => none

/-- `search_modseq`; the results are given to the caller for a failed command as well. -/
def searchModseq (failure : MailimapError) (session : Session) (answer : Answer) : CommandResult (Option (List UInt32) × UInt64) :=
  if session.imapState ≠ .selected then .error .badState session
  else
    let session := mailimapSendCurrentTag session
    match answer with
    | .sendFailed => .error .stream session
    | .noLine => .error .stream session
    | .line parsed =>
        match mailimapParseResponse session parsed with
        | (.error reason, session) => .error reason session
        | (.ok response, session) =>
            let info := session.imapResponseInfo.getD mailimapResponseInfoNew
            let code := match response.errorCode with
              | .ok => .noError
              | _ => failure
            match getSearchData info with
            | none =>
                { code, value := some (info.rspSearchResult, 0),
                  session := session.updateResponse fun info => { info with rspSearchResult := none } }
            | some (result, modSequenceValue) => { code, value := some (some result, modSequenceValue), session }

def mailimapSearchModseq : Session → Answer → CommandResult (Option (List UInt32) × UInt64) := searchModseq .search

def mailimapUidSearchModseq : Session → Answer → CommandResult (Option (List UInt32) × UInt64) := searchModseq .uidSearch

def numbersText (numbers : List UInt32) : List UInt8 := numbers.flatMap fun number => ascii ' ' :: decimal number.toNat

def modseqText : Option UInt64 → List UInt8
  | none => []
  | some value => asciiText " (MODSEQ " ++ decimal value.toNat ++ asciiText ")"

def searchLine (numbers : List UInt32) (modseq : Option UInt64) : List UInt8 :=
  asciiText "* SEARCH" ++ (numbersText numbers ++ (modseqText modseq ++ [CR, LF]))

def completionLine (tag text : List UInt8) : List UInt8 := tag ++ (asciiText " OK " ++ (text ++ [CR, LF]))

structure PlainText (text : List UInt8) : Prop where
  chars : ∀ ch ∈ text, isTextChar ch = true
  starts : ∀ ch ∈ text.head?, isSpaceOrTab ch = false ∧ ch ≠ ascii '['

/-- The commands return the numbers and the mod-sequence value, or zero where there is none; the line is in the buffer,
and what completes the answer is still to come from the stream. -/
def Understands (ctx : ParserContext) (alternatives : Alternatives) (session : Session) (s : Mailstream) (numbers : List UInt32)
    (modseq : Option UInt64) : Prop :=
  ∀ command ∈ [mailimapSearchModseq, mailimapUidSearchModseq],
    let parsed := (mailimapResponseParse ctx alternatives { buffer := searchLine numbers modseq, fd := some s } 0).1.map Prod.fst
    let result := command session (.line parsed)
    result.code = .noError ∧ result.value = some (some numbers, modseq.getD 0)

section Alternatives

variable {α β : Type} {first second : Parser α} {source after : Source} {indx : Nat}

theorem orParse_second (failed : first source indx = (.error .parse, after)) : orParse first second source indx = second after indx := by
  rw [orParse, failed]

theorem orParse_first {found : α × Nat} (parsed : first source indx = (.ok found, after)) :
    orParse first second source indx = (.ok found, after) := by
  rw [orParse, parsed]

theorem mapParse_ok {wrap : α → β} {value : α} {curToken : Nat} (parsed : first source indx = (.ok (value, curToken), after)) :
    mapParse wrap first source indx = (.ok (wrap value, curToken), after) := by
  rw [mapParse, parsed]
  rfl

theorem mapParse_error {wrap : α → β} {reason : ParseError} (failed : first source indx = (.error reason, after)) :
    mapParse wrap first source indx = (.error reason, after) := by
  rw [mapParse, failed]
  rfl

theorem headed_none {head : List UInt8 → Nat → Option Nat} (missing : head source.buffer indx = none) :
    headed head first source indx = (.error .parse, source) := by
  rw [headed, missing]

theorem headed_some {head : List UInt8 → Nat → Option Nat} {curToken : Nat} (found : head source.buffer indx = some curToken) :
    headed head first source indx = first source curToken := by
  rw [headed, found]

end Alternatives

section Tokens

variable {buffer rest : List UInt8} {indx : Nat} {byte : UInt8}

theorem mailimapTokenCaseInsensitiveParse_other {first : UInt8} {token : List UInt8} (at_ : buffer.drop indx = byte :: rest)
    (visible : isSpaceOrTab byte = false) (other : tolower byte ≠ tolower first) :
    mailimapTokenCaseInsensitiveParse buffer indx (first :: token) = none := by
  rw [mailimapTokenCaseInsensitiveParse, skipSpace_at at_ visible, if_neg]
  rintro ⟨_, _, same⟩
  rw [at_, List.length_cons, List.take_succ_cons, List.map_cons, List.map_cons, List.cons.injEq] at same
  exact other same.1

theorem mailimapCrlfParse_other (at_ : buffer.drop indx = byte :: rest) (visible : isSpaceOrTab byte = false) (notCR : tolower byte ≠ CR)
    (notLF : byte ≠ LF) : mailimapCrlfParse buffer indx = none := by
  have skipped := skipSpace_at at_ visible
  have noPair : mailimapTokenCaseInsensitiveParse buffer indx [CR, LF] = none := mailimapTokenCaseInsensitiveParse_other at_ visible notCR
  have notSpace : LF ≠ ascii ' ' := by decide
  rw [mailimapCrlfParse, skipped, noPair]
  exact mailimapUnstrictCharParse_other at_ visible notSpace notLF

theorem mailimapCrlfParse_space (at_ : buffer.drop indx = ascii ' ' :: byte :: rest) (visible : isSpaceOrTab byte = false)
    (notCR : tolower byte ≠ CR) (notLF : byte ≠ LF) : mailimapCrlfParse buffer indx = none := by
  have behind : buffer.drop (indx + 1) = byte :: rest := @drop_behind _ _ _ [ascii ' '] at_
  have skipped : skipSpace buffer indx = indx + 1 := by rw [skipSpace, mailimapSpaceParse_at at_ visible, Option.getD_some]
  have noEnd := mailimapCrlfParse_other behind visible notCR notLF
  rw [mailimapCrlfParse, skipSpace_at behind visible] at noEnd
  rw [mailimapCrlfParse, skipped]
  exact noEnd

theorem mailimapNumberParse_none (noNumber : ∀ byte ∈ ((buffer.drop indx).dropWhile isSpaceOrTab).head?, isDigit byte = false ∧ byte ≠ ascii '-') :
    mailimapNumberParse buffer indx = none := by
  have noMinus : mailimapCharParse buffer (skipSpace buffer indx) (ascii '-') = none := by
    rw [mailimapCharParse, if_neg]
    intro here
    rw [← List.head?_drop, drop_skipSpace] at here
    exact (noNumber _ here).2 rfl
  have noDigits : (buffer.drop (skipSpace buffer indx)).takeWhile isDigit = [] := by
    rw [drop_skipSpace]
    cases text : (buffer.drop indx).dropWhile isSpaceOrTab with
    | nil => rfl
    | cons byte rest =>
        rw [text] at noNumber
        exact List.takeWhile_cons_of_neg (by rw [(noNumber byte rfl).1]; decide)
  rw [mailimapNumberParse]
  simp only [noMinus, Option.getD_none, noDigits, if_true]

theorem mailimapSpaceParse_number {number : Nat} (at_ : buffer.drop indx = ascii ' ' :: (decimal number ++ rest)) :
    mailimapSpaceParse buffer indx = some (indx + 1) := by
  obtain ⟨digit, digits, spelled⟩ := List.exists_cons_of_ne_nil (decimal_ne_nil number)
  have isDigit : isDigit digit = true := decimal_digits digit (by rw [spelled]; exact List.mem_cons_self)
  rw [spelled, List.cons_append] at at_
  exact mailimapSpaceParse_at at_ (isDigit_plain isDigit).1

end Tokens

def EndsNumbers (rest : List UInt8) : Prop := ∀ byte ∈ (rest.dropWhile isSpaceOrTab).head?, isDigit byte = false ∧ byte ≠ ascii '-'

section Numbers

variable {rest : List UInt8} (ends : EndsNumbers rest)

include ends

theorem EndsNumbers.noDigit : rest.takeWhile isDigit = [] := by
  cases rest with
  | nil => rfl
  | cons byte rest =>
      have notDigit : isDigit byte = false := by
        by_cases blank : isSpaceOrTab byte = true
        · have isBlank : byte = ascii ' ' ∨ byte = 9 := by simpa [isSpaceOrTab] using blank
          rcases isBlank with rfl | rfl
          · rfl
          · rfl
        · have first : ((byte :: rest).dropWhile isSpaceOrTab).head? = some byte := by
            rw [List.dropWhile_cons_of_neg blank]
            rfl
          exact (ends byte first).1
      exact List.takeWhile_cons_of_neg (by rw [notDigit]; decide)

omit ends in
theorem readsNumbers (source : Source) (numbers : List UInt32) :
    ReadsItems (ascii ' ') mailimapNzNumberAllocParse (fun number : UInt32 => decimal number.toNat) id source (·.takeWhile isDigit = []) numbers where
  read number _ _ _ noDigit at_ := by
    have small := number.toNat_lt
    simp only [mailimapNzNumberAllocParse, onBuffer, mailimapNzNumberParse, mailimapNumberParse_at at_ noDigit]
    rw [Nat.min_eq_left (by omega), UInt32.ofNat_toNat]
    rfl
  separated _ _ _ := List.takeWhile_cons_of_neg (by decide)
  separator number _ indx _ at_ := by
    rw [mailimapUnstrictCharParse, if_pos rfl, skipSpace, mailimapSpaceParse_number at_, Option.getD_some]

theorem stopsNumbers {source : Source} : StopsList (ascii ' ') mailimapNzNumberAllocParse source rest := by
  intro indx turns structList at_
  have noNumber : mailimapNzNumberParse source.buffer (skipSpace source.buffer indx) = none := by
    apply mailimapNumberParse_none
    rw [drop_skipSpace, at_, List.dropWhile_idempotent]
    exact ends
  rw [structListLoop, mailimapUnstrictCharParse, if_pos rfl]
  simp only [mailimapNzNumberAllocParse, onBuffer, noNumber]

theorem numbersList_at {source : Source} {indx : Nat} {number : UInt32} {numbers : List UInt32}
    (at_ : source.buffer.drop indx = decimal number.toNat ++ (numbersText numbers ++ rest)) :
    mailimapStructSpacedListParse mailimapNzNumberAllocParse source indx =
      (.ok (number :: numbers, indx + (decimal number.toNat).length + (numbersText numbers).length), source) := by
  rw [← List.append_assoc] at at_
  rw [mailimapStructSpacedListParse, mailimapStructListParse_at (readsNumbers source (number :: numbers)) ends.noDigit (stopsNumbers ends) at_,
    List.map_id, joined, List.length_append, ← Nat.add_assoc]
  rfl

end Numbers

def listed (numbers : List UInt32) : Option (List UInt32) := if numbers = [] then none else some numbers

theorem mailimapMailboxDataSearchParse_at {source : Source} {indx : Nat} {numbers : List UInt32} {rest : List UInt8} (ends : EndsNumbers rest)
    (at_ : source.buffer.drop indx = asciiText "SEARCH" ++ (numbersText numbers ++ rest)) :
    mailimapMailboxDataSearchParse source indx =
      (.ok (listed numbers, indx + (asciiText "SEARCH").length + (numbersText numbers).length), source) := by
  have keyword : mailimapTokenCaseInsensitiveParse source.buffer indx (asciiText "SEARCH") = some (indx + (asciiText "SEARCH").length) :=
    mailimapTokenCaseInsensitiveParse_at at_ (by decide)
  have behind := drop_behind at_
  rw [mailimapMailboxDataSearchParse, headed_some keyword]
  cases numbers with
  | nil =>
      have same : indx + (asciiText "SEARCH").length + (numbersText []).length = indx + (asciiText "SEARCH").length := Nat.add_zero _
      rw [same]
      cases spaced : mailimapSpaceParse source.buffer (indx + (asciiText "SEARCH").length) with
      | none => simp only [listed, if_true]
      | some curToken =>
          have isSkipped : skipSpace source.buffer (indx + (asciiText "SEARCH").length) = curToken := by
            rw [skipSpace, spaced, Option.getD_some]
          have noNumber : mailimapNzNumberParse source.buffer curToken = none := by
            apply mailimapNumberParse_none
            rw [← isSkipped, drop_skipSpace, behind, List.dropWhile_idempotent]
            exact ends
          have noList : mailimapStructSpacedListParse mailimapNzNumberAllocParse source curToken = (.error .parse, source) := by
            rw [mailimapStructSpacedListParse, mailimapStructListParse]
            simp only [mailimapNzNumberAllocParse, onBuffer, noNumber]
          simp only [noList, listed, if_true]
  | cons number numbers =>
      rw [numbersText, List.flatMap_cons, List.append_assoc, List.cons_append, ← numbersText] at behind
      have spaced := mailimapSpaceParse_number behind
      have list := numbersList_at ends (@drop_behind _ _ _ [ascii ' '] behind)
      have token : indx + (asciiText "SEARCH").length + 1 + (decimal number.toNat).length + (numbersText numbers).length =
          indx + (asciiText "SEARCH").length + (numbersText (number :: numbers)).length := by
        rw [numbersText, numbersText, List.flatMap_cons, List.length_append, List.length_cons]
        omega
      simp only [List.length_singleton] at list
      simp only [spaced, list, token, listed, if_neg (List.cons_ne_nil _ _)]

section Response

variable {ctx : ParserContext} {alternatives : Alternatives} {source : Source} {indx : Nat} {numbers : List UInt32} {rest : List UInt8}

theorem wordHead_other {first : UInt8} {word : String} {letters : List UInt8} (spelled : asciiText word = first :: letters) {byte : UInt8}
    (at_ : source.buffer.drop indx = byte :: rest) (visible : isSpaceOrTab byte = false) (other : tolower byte ≠ tolower first) :
    wordHead word source.buffer indx = none := by
  rw [wordHead, spelled, mailimapTokenCaseInsensitiveParse_other at_ visible other]
  rfl

theorem mailimapMailboxDataParse_search (ends : EndsNumbers rest)
    (at_ : source.buffer.drop indx = asciiText "SEARCH" ++ (numbersText numbers ++ rest)) :
    mailimapMailboxDataParse ctx alternatives source indx =
      (.ok (.search (listed numbers), indx + (asciiText "SEARCH").length + (numbersText numbers).length), source) := by
  have letter : source.buffer.drop indx = ascii 'S' :: (asciiText "EARCH" ++ (numbersText numbers ++ rest)) := at_
  have visible : isSpaceOrTab (ascii 'S') = false := by decide
  have noFlags : wordHead "FLAGS" source.buffer indx = none := wordHead_other rfl letter visible (by decide)
  have noList : wordHead "LIST" source.buffer indx = none := wordHead_other rfl letter visible (by decide)
  have noLsub : wordHead "LSUB" source.buffer indx = none := wordHead_other rfl letter visible (by decide)
  rw [mailimapMailboxDataParse, List.foldr_cons, orParse_second (mapParse_error (headed_none noFlags)), List.foldr_cons,
    orParse_second (mapParse_error (headed_none noList)), List.foldr_cons, orParse_second (mapParse_error (headed_none noLsub)),
    List.foldr_cons, orParse_first (mapParse_ok (mailimapMailboxDataSearchParse_at ends at_))]

theorem mailimapRespCondStateParse_search (at_ : source.buffer.drop indx = ascii 'S' :: rest) :
    mailimapRespCondStateParse alternatives source indx = (.error .parse, source) := by
  have visible : isSpaceOrTab (ascii 'S') = false := by decide
  have noToken : ∀ {first : UInt8} {letters : List UInt8}, tolower (ascii 'S') ≠ tolower first →
      mailimapTokenCaseInsensitiveParse source.buffer indx (first :: letters) = none :=
    fun other => mailimapTokenCaseInsensitiveParse_other at_ visible other
  have noType : mailimapGetTokenValue source.buffer indx respCondStateTab = none := by
    have ok : mailimapTokenCaseInsensitiveParse source.buffer indx (asciiText "OK") = none := noToken (by decide)
    have no : mailimapTokenCaseInsensitiveParse source.buffer indx (asciiText "NO") = none := noToken (by decide)
    have bad : mailimapTokenCaseInsensitiveParse source.buffer indx (asciiText "BAD") = none := noToken (by decide)
    simp only [mailimapGetTokenValue, respCondStateTab, List.findSome?_cons, ok, no, bad, Option.map_none, List.findSome?_nil]
  rw [mailimapRespCondStateParse, noType]

theorem starHead_search (at_ : source.buffer.drop indx = asciiText "* SEARCH" ++ rest) : starHead source.buffer indx = some (indx + 2) := by
  have star : mailimapStarParse source.buffer indx = some (indx + 1) := mailimapUnstrictCharParse_at at_ (by decide)
  have behind : source.buffer.drop (indx + 1) = ascii ' ' :: ascii 'S' :: (asciiText "EARCH" ++ rest) := @drop_behind _ _ _ [ascii '*'] at_
  rw [starHead, star, Option.bind_eq_bind, Option.bind_some, mailimapSpaceParse_at behind (by decide)]

theorem mailimapResponseDataParse_search (ends : EndsNumbers rest)
    (at_ : source.buffer.drop indx = asciiText "* SEARCH" ++ (numbersText numbers ++ rest)) :
    mailimapResponseDataParse ctx alternatives source indx =
      match mailimapCrlfParse source.buffer (indx + (asciiText "* SEARCH").length + (numbersText numbers).length) with
      | none => (.error .parse, source)
      | some curToken => (.ok (some (.mailboxData (.search (listed numbers))), curToken), source) := by
  have behind : source.buffer.drop (indx + 2) = asciiText "SEARCH" ++ (numbersText numbers ++ rest) := @drop_behind _ _ _ [ascii '*', ascii ' '] at_
  have letter : source.buffer.drop (indx + 2) = ascii 'S' :: (asciiText "EARCH" ++ (numbersText numbers ++ rest)) := behind
  have noBye : wordHead "BYE" source.buffer (indx + 2) = none := wordHead_other rfl letter (by decide) (by decide)
  have noState : mapParse ResponseData.condState (mailimapRespCondStateParse alternatives) source (indx + 2) = (.error .parse, source) :=
    mapParse_error (mailimapRespCondStateParse_search letter)
  have noByeData : mapParse ResponseData.condBye (mailimapRespCondByeParse alternatives) source (indx + 2) = (.error .parse, source) :=
    mapParse_error (headed_none noBye)
  have token : indx + 2 + (asciiText "SEARCH").length + (numbersText numbers).length =
      indx + (asciiText "* SEARCH").length + (numbersText numbers).length := rfl
  rw [mailimapResponseDataParse, headed_some (starHead_search at_), ← token]
  rw [List.foldr_cons, orParse_second noState, List.foldr_cons, orParse_second noByeData, List.foldr_cons,
    orParse_first (mapParse_ok (mailimapMailboxDataParse_search ends behind))]
  cases alternatives.malformedFetchSkip with
  | none => rfl
  | some skip => rfl

theorem followingLine_reads {s : Mailstream} (whole : s.low.Whole) (buffer : List UInt8) (curToken : Nat) :
    ∃ after, followingLine { buffer, fd := some s } curToken = (.ok (), { buffer := buffer ++ takeLine s.incoming, fd := some after }) := by
  obtain ⟨line, after, appended, -, onWhole⟩ := appendFollowingLine_reads whole.steady buffer curToken []
  rw [followingLine, appended, onWhole whole]
  exact ⟨after, rfl⟩

theorem mailimapContReqOrRespDataParse_front {byte : UInt8} (at_ : source.buffer.drop indx = byte :: rest) (visible : isSpaceOrTab byte = false)
    (notCR : tolower byte ≠ CR) (notLF : byte ≠ LF) (notPlus : byte ≠ ascii '+') :
    mailimapContReqOrRespDataParse ctx alternatives source indx =
      match mapParse (Option.map .respData) (mailimapResponseDataParse ctx alternatives) source indx with
      | (.error reason, source) => (.error reason, source)
      | (.ok (data, curToken), source) =>
          match followingLine source curToken with
          | (.error reason, source) => (.error reason, source)
          | (.ok (), source) => (.ok (data, curToken), source) := by
  have noPlus : mailimapUnstrictCharParse source.buffer indx (ascii '+') = none :=
    mailimapUnstrictCharParse_other at_ visible (by decide) notPlus
  have noRequest : mapParse (fun _ => some ContReqOrRespData.contReq)
      (headed (mailimapUnstrictCharParse · · (ascii '+')) alternatives.continueReq) source indx = (.error .parse, source) :=
    mapParse_error (headed_none noPlus)
  have noBlank : skipBlankLines (source.octets + 1) source indx = (.ok indx, source) := by
    rw [skipBlankLines, mailimapCrlfParse_other at_ visible notCR notLF]
  simp only [mailimapContReqOrRespDataParse, noBlank, orParse_second noRequest] <;> rfl

theorem mailimapContReqOrRespDataParse_other {byte : UInt8} (at_ : source.buffer.drop indx = byte :: rest) (visible : isSpaceOrTab byte = false)
    (notCR : tolower byte ≠ CR) (notLF : byte ≠ LF) (notPlus : byte ≠ ascii '+') (notStar : byte ≠ ascii '*') :
    mailimapContReqOrRespDataParse ctx alternatives source indx = (.error .parse, source) := by
  have noStar : starHead source.buffer indx = none := by
    rw [starHead, mailimapStarParse, mailimapUnstrictCharParse_other at_ visible (by decide) notStar]
    rfl
  have noData : mailimapResponseDataParse ctx alternatives source indx = (.error .parse, source) := by
    rw [mailimapResponseDataParse, headed_none noStar]
  rw [mailimapContReqOrRespDataParse_front at_ visible notCR notLF notPlus, mapParse_error noData]

end Response

section Tagged

variable {alternatives : Alternatives} {source : Source} {indx : Nat} {rest : List UInt8}

theorem tagChar_octets : ∀ ch, isTagChar ch = true →
    isSpaceOrTab ch = false ∧ tolower ch ≠ CR ∧ ch ≠ LF ∧ ch ≠ ascii '+' ∧ ch ≠ ascii '*' :=
  forall_octet (by decide +kernel)

theorem textChar_cr : isTextChar CR = false := by decide

theorem mailimapRespTextParse_plain {text : List UInt8} (plain : PlainText text) (at_ : source.buffer.drop indx = text ++ CR :: rest) :
    mailimapRespTextParse alternatives source indx = (.ok ({ rspCode := none, rspText := text }, indx + text.length), source) := by
  have noCode : ∀ {byte : UInt8} {more : List UInt8}, source.buffer.drop indx = byte :: more → isSpaceOrTab byte = false → byte ≠ ascii '[' →
      mailimapRespTextRespTextCodeParse alternatives source indx = (.error .parse, source) := by
    intro byte more starts visible notBracket
    exact headed_none (mailimapUnstrictCharParse_other starts visible (by decide) notBracket)
  cases text with
  | nil =>
      have noText : mailimapTextParse source.buffer indx = none := mailimapCustomStringParse_other at_ (by decide) textChar_cr
      rw [mailimapRespTextParse, noCode at_ (by decide) (by decide)]
      simp only [noText, List.length_nil, Nat.add_zero]
  | cons byte text =>
      obtain ⟨visible, notBracket⟩ := plain.starts byte rfl
      have found : mailimapTextParse source.buffer indx = some (byte :: text, indx + (byte :: text).length) :=
        mailimapCustomStringParse_at at_ visible plain.chars (List.takeWhile_cons_of_neg (by rw [textChar_cr]; decide))
      rw [mailimapRespTextParse, noCode at_ visible notBracket]
      simp only [found]

theorem mailimapRespCondStateParse_ok {text : List UInt8} (plain : PlainText text)
    (at_ : source.buffer.drop indx = asciiText "OK " ++ (text ++ CR :: rest)) :
    mailimapRespCondStateParse alternatives source indx =
      (.ok ({ rspType := .ok, rspText := { rspCode := none, rspText := text } }, indx + (asciiText "OK ").length + text.length), source) := by
  have keyword : mailimapTokenCaseInsensitiveParse source.buffer indx (asciiText "OK") = some (indx + 2) :=
    mailimapTokenCaseInsensitiveParse_at at_ (by decide)
  have isType : mailimapGetTokenValue source.buffer indx respCondStateTab = some (.ok, indx + 2) := by
    rw [mailimapGetTokenValue, respCondStateTab, List.findSome?_cons, keyword]
    rfl
  have behind : source.buffer.drop (indx + 2) = ascii ' ' :: (text ++ CR :: rest) := @drop_behind _ _ _ [ascii 'O', ascii 'K'] at_
  have spaced : mailimapSpaceParse source.buffer (indx + 2) = some (indx + 3) := by
    cases text with
    | nil => exact mailimapSpaceParse_at behind (by decide)
    | cons byte text => exact mailimapSpaceParse_at behind (plain.starts byte rfl).1
  have start : source.buffer.drop (indx + 3) = text ++ CR :: rest := @drop_behind _ _ _ [ascii ' '] behind
  have texts := @mailimapRespTextParse_plain alternatives _ _ _ _ plain start
  rw [mailimapRespCondStateParse, isType]
  dsimp only
  rw [headed_some spaced, mapParse_ok texts]
  rfl

theorem mailimapResponseDoneParse_tagged {tag text : List UInt8} (nonempty : tag ≠ []) (isTag : ∀ ch ∈ tag, isTagChar ch = true)
    (plain : PlainText text) (at_ : source.buffer.drop indx = completionLine tag text ++ rest) :
    ∃ curToken, mailimapResponseDoneParse alternatives source indx =
      (.ok (.tagged tag { rspType := .ok, rspText := { rspCode := none, rspText := text } }, curToken), source) := by
  obtain ⟨byte, letters, rfl⟩ := List.exists_cons_of_ne_nil nonempty
  have visible := (tagChar_octets byte (isTag byte List.mem_cons_self)).1
  rw [completionLine, List.append_assoc, List.append_assoc, List.append_assoc] at at_
  have tagged : mailimapTagParse source.buffer indx = some (byte :: letters, indx + (byte :: letters).length) :=
    mailimapCustomStringParse_at at_ visible isTag (List.takeWhile_cons_of_neg (by decide))
  have behind := drop_behind at_
  have spaced : mailimapSpaceParse source.buffer (indx + (byte :: letters).length) = some (indx + (byte :: letters).length + 1) :=
    mailimapSpaceParse_at behind (by decide)
  have start : source.buffer.drop (indx + (byte :: letters).length + 1) = asciiText "OK " ++ (text ++ CR :: LF :: rest) :=
    @drop_behind _ _ _ [ascii ' '] behind
  have state := @mailimapRespCondStateParse_ok alternatives _ _ _ _ plain start
  have parsed : mailimapResponseTaggedParse alternatives source indx =
      (.ok (.tagged (byte :: letters) { rspType := .ok, rspText := { rspCode := none, rspText := text } },
        indx + (byte :: letters).length + 1 + (asciiText "OK ").length + text.length), source) := by
    rw [mailimapResponseTaggedParse, tagged]
    dsimp only
    rw [headed_some spaced, mapParse_ok state]
  exact ⟨_, orParse_first parsed⟩

theorem mailimapResponseDoneParse_search (at_ : source.buffer.drop indx = asciiText "* SEARCH" ++ rest) :
    mailimapResponseDoneParse alternatives source indx = (.error .parse, source) := by
  have star : source.buffer.drop indx = ascii '*' :: (asciiText " SEARCH" ++ rest) := at_
  have letter : source.buffer.drop (indx + 2) = ascii 'S' :: (asciiText "EARCH" ++ rest) := @drop_behind _ _ _ [ascii '*', ascii ' '] at_
  have noTag : mailimapTagParse source.buffer indx = none := mailimapCustomStringParse_other star (by decide) (by decide)
  have noTagged : mailimapResponseTaggedParse alternatives source indx = (.error .parse, source) := by
    rw [mailimapResponseTaggedParse, noTag]
  have noBye : wordHead "BYE" source.buffer (indx + 2) = none := wordHead_other rfl letter (by decide) (by decide)
  have noLine : lineEnded (mailimapRespCondByeParse alternatives) source (indx + 2) = (.error .parse, source) := by
    rw [lineEnded, mailimapRespCondByeParse, headed_none noBye]
  rw [mailimapResponseDoneParse, orParse_second noTagged, mailimapResponseFatalParse]
  apply mapParse_error
  rw [headed_some (starHead_search at_), noLine]

end Tagged

theorem endsNumbers_modseq (modseq : Option UInt64) : EndsNumbers (modseqText modseq ++ [CR, LF]) := by
  intro byte first
  cases modseq with
  | none =>
      have isCR : byte = CR := (Option.some.inj first).symm
      rw [isCR]
      decide
  | some value =>
      have isParenthesis : byte = ascii '(' := (Option.some.inj first).symm
      rw [isParenthesis]
      decide

theorem decimal_tagChars (number : Nat) : ∀ ch ∈ decimal number, isTagChar ch = true := by
  intro ch member
  have digitIsTag : ∀ ch, isDigit ch = true → isTagChar ch = true := forall_octet (by decide +kernel)
  exact digitIsTag ch (decimal_digits ch member)

theorem tagStr_tagChars (session : Session) : ∀ ch ∈ session.tagStr, isTagChar ch = true := by
  intro ch member
  rw [Session.tagStr, List.mem_append] at member
  obtain letter | digit := member
  · split_ifs at letter with workaround
    · rw [List.mem_singleton.mp letter]
      decide
    · exact absurd letter List.not_mem_nil
  · exact decimal_tagChars _ ch digit

theorem tagStr_ne_nil (session : Session) : session.tagStr ≠ [] := by
  intro empty
  exact decimal_ne_nil _ (List.append_eq_nil_iff.mp empty).2

section Answers

variable (ctx : ParserContext) (alternatives : Alternatives) {numbers : List UInt32} {tag text more : List UInt8}

theorem takeLine_completion (isTag : ∀ ch ∈ tag, isTagChar ch = true) (plain : PlainText text) :
    takeLine (completionLine tag text ++ more) = completionLine tag text := by
  have noLF : LF ∉ tag ++ (asciiText " OK " ++ (text ++ [CR])) := by
    simp only [List.mem_append, not_or]
    have inTag : LF ∉ tag := fun member => absurd (isTag LF member) (by decide)
    have inText : LF ∉ text := fun member => absurd (plain.chars LF member) (by decide)
    exact ⟨inTag, by decide, inText, by decide⟩
  have split : ∀ behind, completionLine tag text ++ behind = (tag ++ (asciiText " OK " ++ (text ++ [CR]))) ++ LF :: behind := by
    intro behind
    simp only [completionLine, List.append_assoc, List.cons_append, List.nil_append]
  rw [split, takeLine_append noLF]
  have whole := split []
  rw [List.append_nil] at whole
  rw [whole]
  rfl

theorem mailimapResponseParse_numbers {s : Mailstream} (nonempty : tag ≠ []) (isTag : ∀ ch ∈ tag, isTagChar ch = true)
    (plain : PlainText text) (whole : s.low.Whole) (incoming : s.incoming = completionLine tag text ++ more) :
    ∃ curToken after, mailimapResponseParse ctx alternatives { buffer := searchLine numbers none, fd := some s } 0 =
      (.ok ({ rspContReqOrRespDataList := [.respData (.mailboxData (.search (listed numbers)))],
              rspRespDone := .tagged tag { rspType := .ok, rspText := { rspCode := none, rspText := text } } }, curToken), after) := by
  have at_ : (searchLine numbers none).drop 0 = asciiText "* SEARCH" ++ (numbersText numbers ++ [CR, LF]) := rfl
  have star : (searchLine numbers none).drop 0 = ascii '*' :: (asciiText " SEARCH" ++ (numbersText numbers ++ [CR, LF])) := rfl
  have ended : (searchLine numbers none).drop (0 + (asciiText "* SEARCH").length + (numbersText numbers).length) = [CR, LF] ++ [] :=
    drop_behind (drop_behind at_)
  have data := @mailimapResponseDataParse_search ctx alternatives { buffer := searchLine numbers none, fd := some s } 0 numbers [CR, LF]
    (endsNumbers_modseq none) at_
  rw [mailimapCrlfParse_at ended] at data
  have length : 0 + (asciiText "* SEARCH").length + (numbersText numbers).length + 2 = (searchLine numbers none).length := by
    have parts : searchLine numbers none = asciiText "* SEARCH" ++ (numbersText numbers ++ [CR, LF]) := rfl
    rw [parts, List.length_append, List.length_append, Nat.zero_add, ← Nat.add_assoc]
    rfl
  rw [length] at data
  obtain ⟨after, line⟩ := followingLine_reads whole (searchLine numbers none) (searchLine numbers none).length
  rw [incoming, takeLine_completion isTag plain] at line
  have first := @mailimapContReqOrRespDataParse_front ctx alternatives { buffer := searchLine numbers none, fd := some s } 0 _ _ star
    (by decide) (by decide) (by decide) (by decide)
  rw [mapParse_ok data] at first
  dsimp only at first
  rw [line] at first
  have start : (searchLine numbers none ++ completionLine tag text).drop (searchLine numbers none).length = completionLine tag text ++ [] := by
    rw [List.drop_left, List.append_nil]
  obtain ⟨byte, letters, spelled⟩ := List.exists_cons_of_ne_nil nonempty
  obtain ⟨visible, notCR, notLF, notPlus, notStar⟩ := tagChar_octets byte (isTag byte (by rw [spelled]; exact List.mem_cons_self))
  have second := @mailimapContReqOrRespDataParse_other ctx alternatives
    { buffer := searchLine numbers none ++ completionLine tag text, fd := some after } (searchLine numbers none).length
    (letters ++ (asciiText " OK " ++ (text ++ [CR, LF]))) byte (by rw [start, List.append_nil, completionLine, spelled]; rfl)
    visible notCR notLF notPlus notStar
  obtain ⟨curToken, done⟩ := @mailimapResponseDoneParse_tagged alternatives
    { buffer := searchLine numbers none ++ completionLine tag text, fd := some after } _ _ tag text nonempty isTag plain start
  refine ⟨curToken, { buffer := searchLine numbers none ++ completionLine tag text, fd := some after }, ?_⟩
  rw [mailimapResponseParse, mailimapStructMultipleParse, first]
  dsimp only
  rw [structMultipleLoop, second]
  dsimp only [Option.map_some, Option.toList_some]
  rw [mapParse_ok done]
  rfl

/-- With the group the end of the line is missing behind the numbers, and nothing else takes the answer. -/
theorem mailimapResponseParse_modseq (fd : Option Mailstream) (value : UInt64) :
    (mailimapResponseParse ctx alternatives { buffer := searchLine numbers (some value), fd } 0).1 = .error .parse := by
  have at_ : (searchLine numbers (some value)).drop 0 =
      asciiText "* SEARCH" ++ (numbersText numbers ++ (modseqText (some value) ++ [CR, LF])) := rfl
  have star : (searchLine numbers (some value)).drop 0 =
      ascii '*' :: (asciiText " SEARCH" ++ (numbersText numbers ++ (modseqText (some value) ++ [CR, LF]))) := rfl
  have behind : (searchLine numbers (some value)).drop (0 + (asciiText "* SEARCH").length + (numbersText numbers).length) =
      ascii ' ' :: ascii '(' :: (asciiText "MODSEQ " ++ decimal value.toNat ++ asciiText ")" ++ [CR, LF]) := drop_behind (drop_behind at_)
  have data := @mailimapResponseDataParse_search ctx alternatives { buffer := searchLine numbers (some value), fd } 0 numbers _
    (endsNumbers_modseq (some value)) at_
  rw [mailimapCrlfParse_space behind (by decide) (by decide) (by decide)] at data
  have first := @mailimapContReqOrRespDataParse_front ctx alternatives { buffer := searchLine numbers (some value), fd } 0 _ _ star
    (by decide) (by decide) (by decide) (by decide)
  rw [mapParse_error data] at first
  have done := @mailimapResponseDoneParse_search alternatives { buffer := searchLine numbers (some value), fd } 0 _ at_
  rw [mailimapResponseParse, mailimapStructMultipleParse, first]
  dsimp only
  rw [mapParse_error done]
  rfl

end Answers

theorem searchModseq_error {failure : MailimapError} {session : Session} (selected : session.imapState = .selected) (reason : ParseError) :
    (searchModseq failure session (.line (.error reason))).code = reason.code := by
  rw [searchModseq, if_neg (by rw [selected]; decide)]
  rfl

theorem searchModseq_numbers {failure : MailimapError} {session : Session} (selected : session.imapState = .selected)
    (numbers : List UInt32) (text : List UInt8) :
    let response : Response :=
      { rspContReqOrRespDataList := [.respData (.mailboxData (.search (listed numbers)))],
        rspRespDone := .tagged (mailimapSendCurrentTag session).tagStr { rspType := .ok, rspText := { rspCode := none, rspText := text } } }
    (searchModseq failure session (.line (.ok response))).code = .noError ∧
      (searchModseq failure session (.line (.ok response))).value = some (some numbers, 0) := by
  intro response
  have parsed : mailimapParseResponse (mailimapSendCurrentTag session) (.ok response) =
      (.ok response, responseStore (mailimapSendCurrentTag session) response) := by
    have tag : (responseStore (mailimapSendCurrentTag session) response).tagStr = (mailimapSendCurrentTag session).tagStr := rfl
    simp only [mailimapParseResponse, response, tag]
    rw [if_neg (not_not_intro rfl), if_neg (by decide)]
  rw [searchModseq, if_neg (by rw [selected]; decide)]
  dsimp only
  rw [parsed]
  have result : ((responseStore (mailimapSendCurrentTag session) response).imapResponseInfo.getD
      mailimapResponseInfoNew).rspSearchResult = some numbers := by
    cases numbers with
    | nil => rfl
    | cons number numbers => rfl
  exact ⟨rfl, congrArg (fun found => some (found, 0)) result⟩

/-- The numbers of a search are returned exactly when the response has no group of CONDSTORE. -/
theorem mailimapSearchModseq_understands (ctx : ParserContext) (alternatives : Alternatives) {session : Session} {s : Mailstream}
    {numbers : List UInt32} (modseq : Option UInt64) {text more : List UInt8} (selected : session.imapState = .selected)
    (whole : s.low.Whole) (plain : PlainText text)
    (incoming : s.incoming = completionLine (mailimapSendCurrentTag session).tagStr text ++ more) :
    Understands ctx alternatives session s numbers modseq ↔ modseq = none := by
  constructor
  · intro understood
    cases modseq with
    | none => rfl
    | some value =>
        have accepted := (understood mailimapSearchModseq List.mem_cons_self).1
        have refused := @mailimapResponseParse_modseq ctx alternatives numbers (some s) value
        rw [refused] at accepted
        have code := @searchModseq_error .search _ selected .parse
        exact absurd (code.symm.trans accepted) (by decide)
  · intro noGroup
    rw [noGroup]
    obtain ⟨curToken, after, parsed⟩ := @mailimapResponseParse_numbers ctx alternatives numbers _ _ _ s (tagStr_ne_nil _) (tagStr_tagChars _)
      plain whole incoming
    intro command member
    rw [parsed]
    rcases List.mem_pair.mp member with rfl | rfl
    · exact searchModseq_numbers selected numbers text
    · exact searchModseq_numbers selected numbers text

def noAlternatives : Alternatives where
  respTextCode := fun source _ => (.error .parse, source)
  continueReq := fun source _ => (.error .parse, source)
  flagList := fun source _ => (.error .parse, source)
  mailboxList := fun source _ => (.error .parse, source)
  extensionsBefore := fun source _ => (.error .parse, source)
  extensionsAfter := fun source _ => (.error .parse, source)
  messageData := fun source _ => (.error .parse, source)
  capabilityData := fun source _ => (.error .parse, source)
  extensionData := fun source _ => (.error .parse, source)
  malformedFetchSkip := none

theorem mailimapSearchModseq_understands_two :
    Understands ⟨false⟩ noAlternatives selectedSession (delivering [asciiText "1 OK \r\n"]) [3, 5] none ↔ (none : Option UInt64) = none :=
  @mailimapSearchModseq_understands ⟨false⟩ noAlternatives selectedSession _ [3, 5] none [] [] rfl
    (delivering_whole (by decide)) ⟨nofun, nofun⟩ (by decide +kernel)

/-- Two numbers and the value that goes with them. -/
theorem mailimapSearchModseq_refuses :
    ¬ Understands ⟨false⟩ noAlternatives selectedSession (delivering [asciiText "1 OK \r\n"]) [3, 5] (some 917162500) := by
  intro understood
  have accepted := (understood mailimapSearchModseq List.mem_cons_self).1
  rw [mailimapResponseParse_modseq] at accepted
  exact absurd accepted (by decide)

end Etpan.Imap
