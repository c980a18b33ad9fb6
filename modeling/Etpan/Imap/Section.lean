import Etpan.Imap.ListRead
import Etpan.Imap.SearchModseq
import Etpan.Imap.SearchSend
import Etpan.Imap.StatusName

namespace Etpan.Imap

open Etpan.Data Etpan.Stream

/-! The section of a message, `mailimap_section_send` of `low-level/imap/mailimap_sender.c` and
`mailimap_section_parse` of `low-level/imap/mailimap_parser.c`. -/

/-- `struct mailimap_section_msgtext`; the two types that name fields come with their list. -/
inductive MailimapSectionMsgtext where
  | header
  | headerFields (secHeaderList : List (List UInt8))
  | headerFieldsNot (secHeaderList : List (List UInt8))
  | text
deriving Repr, DecidableEq

inductive MailimapSectionText where
  | sectionMsgtext (secMsgtext : MailimapSectionMsgtext)
  | mime
deriving Repr, DecidableEq

inductive MailimapSectionSpec where
  | sectionMsgtext (secMsgtext : MailimapSectionMsgtext)
  | sectionPart (secId : List UInt32) (secText : Option MailimapSectionText)
deriving Repr, DecidableEq

structure MailimapSection where
  secSpec : Option MailimapSectionSpec
deriving Repr, DecidableEq

def mailimapHeaderListSend (hdrList : List (List UInt8)) : Sending :=
  mailimapOparenthSend ++ mailimapStructSpacedListSend hdrList mailimapHeaderFldNameSend ++ mailimapCparenthSend

def mailimapSectionMsgtextSend : MailimapSectionMsgtext → Sending
  | .header => mailimapTokenSend (asciiText "HEADER")
  | .headerFields secHeaderList =>
      mailimapTokenSend (asciiText "HEADER.FIELDS") ++ mailimapSpaceSend ++ mailimapHeaderListSend secHeaderList
  | .headerFieldsNot secHeaderList =>
      mailimapTokenSend (asciiText "HEADER.FIELDS.NOT") ++ mailimapSpaceSend ++ mailimapHeaderListSend secHeaderList
  | .text => mailimapTokenSend (asciiText "TEXT")

def mailimapPnumberSend (pnumber : UInt32) : Sending := mailimapNumberSend pnumber

def mailimapSectionPartSend (secId : List UInt32) : Sending := mailimapStructListSend secId (ascii '.') mailimapPnumberSend

def mailimapSectionTextSend : MailimapSectionText → Sending
  | .sectionMsgtext secMsgtext => mailimapSectionMsgtextSend secMsgtext
  | .mime => mailimapTokenSend (asciiText "MIME")

def mailimapSectionSpecSend : MailimapSectionSpec → Sending
  | .sectionMsgtext secMsgtext => mailimapSectionMsgtextSend secMsgtext
  | .sectionPart secId none => mailimapSectionPartSend secId
  | .sectionPart secId (some secText) => mailimapSectionPartSend secId ++ mailimapCharSend (ascii '.') ++ mailimapSectionTextSend secText

/-- A section that is NULL is sent as one without a spec. -/
def mailimapSectionSend (sec : Option MailimapSection) : Sending :=
  mailimapCharSend (ascii '[') ++
    (match sec.bind (·.secSpec) with
    | none => []
    | some secSpec => mailimapSectionSpecSend secSpec) ++
    mailimapCharSend (ascii ']')

/-- `section_msgtext_tab` of `mailimap_keywords.c`; the values of the enumeration. -/
inductive SectionMsgtextType where
  | header
  | headerFields
  | headerFieldsNot
  | text
deriving Repr, DecidableEq

def sectionMsgtextTab : List (SectionMsgtextType × List UInt8) :=
  [(.headerFieldsNot, asciiText "HEADER.FIELDS.NOT"), (.headerFields, asciiText "HEADER.FIELDS"), (.header, asciiText "HEADER"),
    (.text, asciiText "TEXT")]

def mailimapSectionMsgtextGetTokenValue (buffer : List UInt8) (indx : Nat) : Option (SectionMsgtextType × Nat) :=
  mailimapGetTokenValue buffer (skipSpace buffer indx) sectionMsgtextTab

def mailimapDotParse (buffer : List UInt8) (indx : Nat) : Option Nat := mailimapUnstrictCharParse buffer indx (ascii '.')

def mailimapObracketParse (buffer : List UInt8) (indx : Nat) : Option Nat := mailimapUnstrictCharParse buffer indx (ascii '[')

def mailimapCbracketParse (buffer : List UInt8) (indx : Nat) : Option Nat := mailimapUnstrictCharParse buffer indx (ascii ']')

section Parse

variable (ctx : ParserContext)

def mailimapHeaderFldNameParse : Parser (List UInt8) := mailimapAstringParse ctx

def mailimapHeaderListParse : Parser (List (List UInt8)) :=
  headed mailimapOparenthParse fun source curToken =>
    match mailimapStructSpacedListParse (mailimapHeaderFldNameParse ctx) source curToken with
    | (.error reason, source) => (.error reason, source)
    | (.ok (list, curToken), source) =>
        match mailimapCparenthParse source.buffer curToken with
        | none => (.error .parse, source)
        | some curToken => (.ok (list, curToken), source)

def mailimapSectionMsgtextParse : Parser MailimapSectionMsgtext := fun source indx =>
  match mailimapSectionMsgtextGetTokenValue source.buffer indx with
  | none => (.error .parse, source)
  | some (.headerFields, curToken) => mapParse .headerFields (mailimapHeaderListParse ctx) source curToken
  | some (.headerFieldsNot, curToken) => mapParse .headerFieldsNot (mailimapHeaderListParse ctx) source curToken
  | some (.header, curToken) => (.ok (.header, curToken), source)
  | some (.text, curToken) => (.ok (.text, curToken), source)

def mailimapSectionPartParse : Parser (List UInt32) := mailimapStructListParse (ascii '.') mailimapNzNumberAllocParse

def mailimapSectionTextParse : Parser MailimapSectionText :=
  orParse (mapParse .sectionMsgtext (mailimapSectionMsgtextParse ctx))
    (headed (mailimapTokenCaseInsensitiveParse · · (asciiText "MIME")) fun source curToken => (.ok (.mime, curToken), source))

/-- What may follow the part: a dot that no text follows is given back. -/
def sectionTextBehind (secId : List UInt32) : Parser MailimapSectionSpec := fun source finalToken =>
  match mailimapDotParse source.buffer finalToken with
  | none => (.ok (.sectionPart secId none, finalToken), source)
  | some curToken =>
      match mailimapSectionTextParse ctx source curToken with
      | (.ok (secText, finalToken), source) => (.ok (.sectionPart secId (some secText), finalToken), source)
      | (.error .parse, source) => (.ok (.sectionPart secId none, finalToken), source)
      | (.error reason, source) => (.error reason, source)

def mailimapSectionSpecParse : Parser MailimapSectionSpec :=
  orParse (mapParse .sectionMsgtext (mailimapSectionMsgtextParse ctx)) fun source indx =>
    match mailimapSectionPartParse source indx with
    | (.error reason, source) => (.error reason, source)
    | (.ok (secId, finalToken), source) => sectionTextBehind ctx secId source finalToken

/-- The section is NULL where there is no spec between the brackets. -/
def mailimapSectionParse : Parser (Option MailimapSection) :=
  headed mailimapObracketParse fun source curToken =>
    let closed (sectionSpec : Option MailimapSectionSpec) (source : Source) (curToken : Nat) :
        Except ParseError (Option MailimapSection × Nat) × Source :=
      match mailimapCbracketParse source.buffer curToken with
      | none => (.error .parse, source)
      | some curToken => (.ok (sectionSpec.map fun secSpec => { secSpec := some secSpec }, curToken), source)
    match mailimapSectionSpecParse ctx source curToken with
    | (.ok (sectionSpec, curToken), source) => closed (some sectionSpec) source curToken
    | (.error .parse, source) => closed none source curToken
    | (.error reason, source) => (.error reason, source)

end Parse

def MailimapSectionMsgtext.Proper : MailimapSectionMsgtext → Prop
  | .header => True
  | .headerFields secHeaderList | .headerFieldsNot secHeaderList => secHeaderList ≠ [] ∧ ∀ name ∈ secHeaderList, Printable name
  | .text => True

def MailimapSectionText.Proper : MailimapSectionText → Prop
  | .sectionMsgtext secMsgtext => secMsgtext.Proper
  | .mime => True

def MailimapSectionSpec.Proper : MailimapSectionSpec → Prop
  | .sectionMsgtext secMsgtext => secMsgtext.Proper
  | .sectionPart secId secText => secId ≠ [] ∧ (∀ number ∈ secId, number ≠ 0) ∧ ∀ text ∈ secText, text.Proper

def nameText (name : List UInt8) : List UInt8 := if isAtom name then name else quotedText name

def headerListText (names : List (List UInt8)) : List UInt8 := ascii '(' :: (joined (ascii ' ') nameText names ++ [ascii ')'])

def numberText (number : UInt32) : List UInt8 := decimal number.toNat

def MailimapSectionMsgtext.spelled : MailimapSectionMsgtext → List UInt8
  | .header => asciiText "HEADER"
  | .headerFields secHeaderList => asciiText "HEADER.FIELDS" ++ ascii ' ' :: headerListText secHeaderList
  | .headerFieldsNot secHeaderList => asciiText "HEADER.FIELDS.NOT" ++ ascii ' ' :: headerListText secHeaderList
  | .text => asciiText "TEXT"

def MailimapSectionText.spelled : MailimapSectionText → List UInt8
  | .sectionMsgtext secMsgtext => secMsgtext.spelled
  | .mime => asciiText "MIME"

def MailimapSectionSpec.spelled : MailimapSectionSpec → List UInt8
  | .sectionMsgtext secMsgtext => secMsgtext.spelled
  | .sectionPart secId none => joined (ascii '.') numberText secId
  | .sectionPart secId (some secText) => joined (ascii '.') numberText secId ++ ascii '.' :: secText.spelled

section Sent

theorem joined_congr {α : Type} {symbol : UInt8} {write other : α → List UInt8} {list : List α} (same : ∀ value ∈ list, write value = other value) :
    joined symbol write list = joined symbol other list := by
  cases list with
  | nil => rfl
  | cons first rest =>
      have others : (rest.flatMap fun value => symbol :: write value) = rest.flatMap fun value => symbol :: other value :=
        List.flatMap_congr fun value member => by rw [same value (List.mem_cons_of_mem _ member)]
      rw [joined, joined, same first List.mem_cons_self, others]

theorem mailimapHeaderListSend_text {names : List (List UInt8)} (printable : ∀ name ∈ names, Printable name) :
    (mailimapHeaderListSend names).text = headerListText names := by
  have sent : (mailimapStructSpacedListSend names mailimapHeaderFldNameSend).text = joined (ascii ' ') nameText names :=
    (mailimapStructListSend_text names _ _).trans (joined_congr fun name member => mailimapAstringSend_text (printable name member).nulFree)
  rw [mailimapHeaderListSend, Sending.text_append, Sending.text_append, sent]
  rfl

theorem tokens_text : ∀ token ∈ [asciiText "HEADER", asciiText "HEADER.FIELDS", asciiText "HEADER.FIELDS.NOT", asciiText "TEXT", asciiText "MIME"],
    (mailimapTokenSend token).text = token := by
  decide +kernel

theorem mailimapSectionMsgtextSend_text {msgtext : MailimapSectionMsgtext} (proper : msgtext.Proper) :
    (mailimapSectionMsgtextSend msgtext).text = msgtext.spelled := by
  have space : Sending.text mailimapSpaceSend = [ascii ' '] := rfl
  cases msgtext with
  | header => exact tokens_text _ (by simp)
  | headerFields names =>
      simp only [mailimapSectionMsgtextSend, Sending.text_append, mailimapHeaderListSend_text proper.2, space, MailimapSectionMsgtext.spelled,
        tokens_text (asciiText "HEADER.FIELDS") (by simp), List.append_assoc, List.singleton_append]
  | headerFieldsNot names =>
      simp only [mailimapSectionMsgtextSend, Sending.text_append, mailimapHeaderListSend_text proper.2, space, MailimapSectionMsgtext.spelled,
        tokens_text (asciiText "HEADER.FIELDS.NOT") (by simp), List.append_assoc, List.singleton_append]
  | text => exact tokens_text _ (by simp)

theorem mailimapSectionTextSend_text {secText : MailimapSectionText} (proper : secText.Proper) :
    (mailimapSectionTextSend secText).text = secText.spelled := by
  cases secText with
  | sectionMsgtext msgtext => exact mailimapSectionMsgtextSend_text proper
  | mime => exact tokens_text _ (by simp)

theorem mailimapSectionPartSend_text (secId : List UInt32) : (mailimapSectionPartSend secId).text = joined (ascii '.') numberText secId :=
  (mailimapStructListSend_text secId _ _).trans (joined_congr fun number _ => mailimapNumberSend_text number)

theorem mailimapSectionSpecSend_text {secSpec : MailimapSectionSpec} (proper : secSpec.Proper) :
    (mailimapSectionSpecSend secSpec).text = secSpec.spelled := by
  match secSpec with
  | .sectionMsgtext msgtext => exact mailimapSectionMsgtextSend_text proper
  | .sectionPart secId none => exact mailimapSectionPartSend_text secId
  | .sectionPart secId (some secText) =>
      rw [mailimapSectionSpecSend, Sending.text_append, Sending.text_append, mailimapSectionPartSend_text, mailimapCharSend_text,
        mailimapSectionTextSend_text (proper.2.2 secText rfl), MailimapSectionSpec.spelled, List.append_assoc, List.singleton_append]

end Sent

section Tokens

variable {buffer rest : List UInt8} {indx : Nat} {byte : UInt8}

theorem mailimapUnstrictCharParse_spaced {token : UInt8} (at_ : buffer.drop indx = ascii ' ' :: token :: rest)
    (visible : isSpaceOrTab token = false) : mailimapUnstrictCharParse buffer indx token = some (indx + 2) := by
  have notSpace : token ≠ ascii ' ' := fun same => by
    subst same
    exact absurd visible (by decide)
  have behind : buffer.drop (indx + 1) = token :: rest := @drop_behind _ _ _ [ascii ' '] at_
  rw [mailimapUnstrictCharParse, skipSpace, mailimapSpaceParse_at at_ visible, Option.getD_some, if_neg notSpace, mailimapCharParse_at behind]

theorem mailimapTokenCaseInsensitiveParse_differs {front token : List UInt8} (at_ : buffer.drop indx = byte :: front ++ rest)
    (visible : isSpaceOrTab byte = false) (short : (byte :: front).length ≤ token.length)
    (differs : (token.take (byte :: front).length).map tolower ≠ (byte :: front).map tolower) :
    mailimapTokenCaseInsensitiveParse buffer indx token = none := by
  have first : buffer.drop indx = byte :: (front ++ rest) := at_
  rw [mailimapTokenCaseInsensitiveParse_eq first visible, if_neg]
  intro isFront
  have same := List.prefix_iff_eq_take.mp isFront
  have taken := congrArg (List.take (byte :: front).length) same
  rw [List.take_take, List.length_map, Nat.min_eq_left short, ← List.cons_append, List.map_append, List.take_left' (List.length_map _),
    ← List.map_take] at taken
  exact differs taken

theorem sectionMsgtextGetTokenValue_none (at_ : buffer.drop indx = byte :: rest) (visible : isSpaceOrTab byte = false)
    (notH : tolower byte ≠ tolower (ascii 'H')) (notT : tolower byte ≠ tolower (ascii 'T')) :
    mailimapSectionMsgtextGetTokenValue buffer indx = none := by
  rw [mailimapSectionMsgtextGetTokenValue, skipSpace_at at_ visible, mailimapGetTokenValue, List.findSome?_eq_none_iff]
  have firsts : ∀ entry ∈ sectionMsgtextTab, ∃ first others, entry.2 = first :: others ∧ (first = ascii 'H' ∨ first = ascii 'T') := by
    intro entry member
    simp only [sectionMsgtextTab, List.mem_cons, List.not_mem_nil, or_false] at member
    rcases member with rfl | rfl | rfl | rfl
    · exact ⟨ascii 'H', asciiText "EADER.FIELDS.NOT", rfl, .inl rfl⟩
    · exact ⟨ascii 'H', asciiText "EADER.FIELDS", rfl, .inl rfl⟩
    · exact ⟨ascii 'H', asciiText "EADER", rfl, .inl rfl⟩
    · exact ⟨ascii 'T', asciiText "EXT", rfl, .inr rfl⟩
  intro entry member
  obtain ⟨first, others, spelled, letter⟩ := firsts entry member
  have other : tolower byte ≠ tolower first := by
    rcases letter with rfl | rfl
    · exact notH
    · exact notT
  rw [spelled, mailimapTokenCaseInsensitiveParse_other at_ visible other]
  rfl

end Tokens

section Names

variable {ctx : ParserContext} {source : Source} {rest : List UInt8} {indx : Nat}

theorem nameText_head (name : List UInt8) : ∃ byte others, nameText name = byte :: others ∧ isSpaceOrTab byte = false := by
  rw [nameText]
  split_ifs with atom
  · obtain ⟨nonempty, sent⟩ := isAtom_iff.mp atom
    obtain ⟨byte, others, rfl⟩ := List.exists_cons_of_ne_nil nonempty
    exact ⟨byte, others, rfl, isAstringChar_visible (isSentInAtom_spec (sent byte List.mem_cons_self)).astringChar⟩
  · exact ⟨ascii '"', name.flatMap escaped ++ [ascii '"'], rfl, by decide⟩

theorem names_read (names : List (List UInt8)) :
    ReadsItems (ascii ' ') (mailimapHeaderFldNameParse ctx) nameText id source (fun rest => rest.takeWhile isAstringChar = []) names where
  read := by
    intro name member indx rest ends at_
    rw [mailimapHeaderFldNameParse]
    rw [nameText] at at_ ⊢
    split_ifs at at_ ⊢ with atom
    · exact mailimapAstringParse_atom atom at_ ends
    · exact mailimapAstringParse_quoted at_
  separated := fun name member rest => List.takeWhile_cons_of_neg (by decide)
  separator := by
    intro name member indx rest at_
    obtain ⟨byte, others, spelled, visible⟩ := nameText_head name
    rw [spelled] at at_
    exact mailimapUnstrictCharParse_space at_ visible

theorem names_stop : StopsList (ascii ' ') (mailimapHeaderFldNameParse ctx) source (ascii ')' :: rest) := by
  intro indx turns structList at_
  have skipped := skipSpace_at at_ (by decide)
  rw [structListLoop, mailimapUnstrictCharParse, if_pos rfl, skipped]
  simp only [mailimapHeaderFldNameParse, mailimapAstringParse_none at_ (by decide)]

theorem mailimapHeaderListParse_at {names : List (List UInt8)} (nonempty : names ≠ [])
    (at_ : source.buffer.drop indx = ascii ' ' :: headerListText names ++ rest) :
    mailimapHeaderListParse ctx source indx = (.ok (names, indx + (ascii ' ' :: headerListText names).length), source) := by
  obtain ⟨first, others, rfl⟩ := List.exists_cons_of_ne_nil nonempty
  rw [headerListText, List.cons_append, List.cons_append, List.append_assoc] at at_
  have opened : mailimapOparenthParse source.buffer indx = some (indx + 2) := mailimapUnstrictCharParse_spaced at_ (by decide)
  have inside : source.buffer.drop (indx + 2) = joined (ascii ' ') nameText (first :: others) ++ ([ascii ')'] ++ rest) :=
    @drop_behind _ _ _ [ascii ' ', ascii '('] at_
  have list : mailimapStructSpacedListParse (mailimapHeaderFldNameParse ctx) source (indx + 2) =
      (.ok (first :: others, indx + 2 + (joined (ascii ' ') nameText (first :: others)).length), source) := by
    rw [mailimapStructSpacedListParse, mailimapStructListParse_at (names_read _) (List.takeWhile_cons_of_neg (by decide)) names_stop inside,
      List.map_id]
  have closed : mailimapCparenthParse source.buffer (indx + 2 + (joined (ascii ' ') nameText (first :: others)).length) = some _ :=
    mailimapUnstrictCharParse_at (drop_behind inside) (by decide)
  rw [mailimapHeaderListParse, headed_some opened, list]
  simp only [closed, headerListText, List.length_cons, List.length_append, List.length_nil]
  congr 3
  omega

end Names

section Sections

variable {ctx : ParserContext} {source : Source} {rest : List UInt8} {indx : Nat}

def sentKeywords : List (SectionMsgtextType × List UInt8 × UInt8) :=
  [(.header, asciiText "HEADER", ascii ']'), (.headerFields, asciiText "HEADER.FIELDS", ascii ' '),
    (.headerFieldsNot, asciiText "HEADER.FIELDS.NOT", ascii ' '), (.text, asciiText "TEXT", ascii ']')]

theorem sectionMsgtextGetTokenValue_at {buffer : List UInt8} {keyword : List UInt8} {type : SectionMsgtextType} {follow : UInt8}
    (entry : (type, keyword, follow) ∈ sentKeywords) (at_ : buffer.drop indx = keyword ++ follow :: rest) :
    mailimapSectionMsgtextGetTokenValue buffer indx = some (type, indx + keyword.length) := by
  have whole : buffer.drop indx = (keyword ++ [follow]) ++ rest := by
    rw [at_, List.append_assoc, List.singleton_append]
  simp only [sentKeywords, List.mem_cons, Prod.mk.injEq, List.not_mem_nil, or_false] at entry
  rcases entry with ⟨rfl, rfl, rfl⟩ | ⟨rfl, rfl, rfl⟩ | ⟨rfl, rfl, rfl⟩ | ⟨rfl, rfl, rfl⟩
  · have skipped : skipSpace buffer indx = indx := skipSpace_at at_ (by decide)
    have notNot : mailimapTokenCaseInsensitiveParse buffer indx (asciiText "HEADER.FIELDS.NOT") = none :=
      mailimapTokenCaseInsensitiveParse_differs whole (by decide) (by decide) (by decide)
    have notFields : mailimapTokenCaseInsensitiveParse buffer indx (asciiText "HEADER.FIELDS") = none :=
      mailimapTokenCaseInsensitiveParse_differs whole (by decide) (by decide) (by decide)
    have found : mailimapTokenCaseInsensitiveParse buffer indx (asciiText "HEADER") = some _ :=
      mailimapTokenCaseInsensitiveParse_at at_ (by decide)
    simp only [mailimapSectionMsgtextGetTokenValue, skipped, mailimapGetTokenValue, sectionMsgtextTab, List.findSome?_cons, notNot, notFields,
      found, Option.map_none, Option.map_some]
    rfl
  · have skipped : skipSpace buffer indx = indx := skipSpace_at at_ (by decide)
    have notNot : mailimapTokenCaseInsensitiveParse buffer indx (asciiText "HEADER.FIELDS.NOT") = none :=
      mailimapTokenCaseInsensitiveParse_differs whole (by decide) (by decide) (by decide)
    have found : mailimapTokenCaseInsensitiveParse buffer indx (asciiText "HEADER.FIELDS") = some _ :=
      mailimapTokenCaseInsensitiveParse_at at_ (by decide)
    simp only [mailimapSectionMsgtextGetTokenValue, skipped, mailimapGetTokenValue, sectionMsgtextTab, List.findSome?_cons, notNot, found,
      Option.map_none, Option.map_some]
    rfl
  · have skipped : skipSpace buffer indx = indx := skipSpace_at at_ (by decide)
    have found : mailimapTokenCaseInsensitiveParse buffer indx (asciiText "HEADER.FIELDS.NOT") = some _ :=
      mailimapTokenCaseInsensitiveParse_at at_ (by decide)
    simp only [mailimapSectionMsgtextGetTokenValue, skipped, mailimapGetTokenValue, sectionMsgtextTab, List.findSome?_cons, found, Option.map_some]
    rfl
  · have skipped : skipSpace buffer indx = indx := skipSpace_at at_ (by decide)
    have differs : ∀ token, 5 ≤ token.length → (token.take 5).map tolower ≠ asciiText "text]" → mailimapTokenCaseInsensitiveParse buffer indx token = none :=
      fun token long other => mailimapTokenCaseInsensitiveParse_differs whole (by decide) long other
    have found : mailimapTokenCaseInsensitiveParse buffer indx (asciiText "TEXT") = some _ :=
      mailimapTokenCaseInsensitiveParse_at at_ (by decide)
    simp only [mailimapSectionMsgtextGetTokenValue, skipped, mailimapGetTokenValue, sectionMsgtextTab, List.findSome?_cons,
      differs (asciiText "HEADER.FIELDS.NOT") (by decide) (by decide), differs (asciiText "HEADER.FIELDS") (by decide) (by decide),
      differs (asciiText "HEADER") (by decide) (by decide), found, Option.map_none, Option.map_some]
    rfl

theorem mailimapSectionMsgtextParse_at {msgtext : MailimapSectionMsgtext} (proper : msgtext.Proper)
    (at_ : source.buffer.drop indx = msgtext.spelled ++ ascii ']' :: rest) :
    mailimapSectionMsgtextParse ctx source indx = (.ok (msgtext, indx + msgtext.spelled.length), source) := by
  cases msgtext with
  | header =>
      rw [MailimapSectionMsgtext.spelled] at at_
      have token : mailimapSectionMsgtextGetTokenValue source.buffer indx = some (.header, _) :=
        sectionMsgtextGetTokenValue_at (by simp only [sentKeywords, List.mem_cons, true_or]) at_
      rw [mailimapSectionMsgtextParse, token]
      rfl
  | headerFields names =>
      rw [MailimapSectionMsgtext.spelled, List.append_assoc] at at_
      have token : mailimapSectionMsgtextGetTokenValue source.buffer indx = some (.headerFields, _) :=
        sectionMsgtextGetTokenValue_at (by simp only [sentKeywords, List.mem_cons, true_or, or_true]) at_
      rw [mailimapSectionMsgtextParse, token]
      simp only [mapParse_ok (mailimapHeaderListParse_at proper.1 (drop_behind at_)), MailimapSectionMsgtext.spelled, List.length_append,
        Nat.add_assoc]
  | headerFieldsNot names =>
      rw [MailimapSectionMsgtext.spelled, List.append_assoc] at at_
      have token : mailimapSectionMsgtextGetTokenValue source.buffer indx = some (.headerFieldsNot, _) :=
        sectionMsgtextGetTokenValue_at (by simp only [sentKeywords, List.mem_cons, true_or, or_true]) at_
      rw [mailimapSectionMsgtextParse, token]
      simp only [mapParse_ok (mailimapHeaderListParse_at proper.1 (drop_behind at_)), MailimapSectionMsgtext.spelled, List.length_append,
        Nat.add_assoc]
  | text =>
      rw [MailimapSectionMsgtext.spelled] at at_
      have token : mailimapSectionMsgtextGetTokenValue source.buffer indx = some (.text, _) :=
        sectionMsgtextGetTokenValue_at (by simp only [sentKeywords, List.mem_cons, true_or, or_true]) at_
      rw [mailimapSectionMsgtextParse, token]
      rfl

theorem mailimapSectionMsgtextParse_none {byte : UInt8} (at_ : source.buffer.drop indx = byte :: rest) (visible : isSpaceOrTab byte = false)
    (notH : tolower byte ≠ tolower (ascii 'H')) (notT : tolower byte ≠ tolower (ascii 'T')) :
    mailimapSectionMsgtextParse ctx source indx = (.error .parse, source) := by
  rw [mailimapSectionMsgtextParse, sectionMsgtextGetTokenValue_none at_ visible notH notT]

theorem mailimapSectionTextParse_at {secText : MailimapSectionText} (proper : secText.Proper)
    (at_ : source.buffer.drop indx = secText.spelled ++ ascii ']' :: rest) :
    mailimapSectionTextParse ctx source indx = (.ok (secText, indx + secText.spelled.length), source) := by
  cases secText with
  | sectionMsgtext msgtext => exact orParse_first (mapParse_ok (mailimapSectionMsgtextParse_at proper at_))
  | mime =>
      have noMsgtext : mapParse MailimapSectionText.sectionMsgtext (mailimapSectionMsgtextParse ctx) source indx = (.error .parse, source) :=
        mapParse_error (mailimapSectionMsgtextParse_none at_ (by decide) (by decide) (by decide))
      have found : mailimapTokenCaseInsensitiveParse source.buffer indx (asciiText "MIME") = some _ :=
        mailimapTokenCaseInsensitiveParse_at at_ (by decide)
      rw [mailimapSectionTextParse, orParse_second noMsgtext, headed_some found]
      rfl

theorem numbers_read (secId : List UInt32) :
    ReadsItems (ascii '.') mailimapNzNumberAllocParse numberText id source (fun rest => rest.takeWhile isDigit = []) secId where
  read := by
    intro number member indx rest ends at_
    have small := number.toNat_lt
    simp only [mailimapNzNumberAllocParse, onBuffer, mailimapNzNumberParse, mailimapNumberParse_at at_ ends, Nat.min_eq_left (Nat.le_of_lt_succ small),
      UInt32.ofNat_toNat]
    rfl
  separated := fun number member rest => List.takeWhile_cons_of_neg (by decide)
  separator := fun number member {_ _} at_ => mailimapUnstrictCharParse_at at_ (by decide)

/-- What stands behind the part numbers: the bracket, or a dot and a text. -/
inductive EndsPart : List UInt8 → Prop
  | bracket (rest : List UInt8) : EndsPart (ascii ']' :: rest)
  | text {secText : MailimapSectionText} (rest : List UInt8) : EndsPart (ascii '.' :: (secText.spelled ++ rest))

theorem spelled_head (secText : MailimapSectionText) : ∃ byte others, secText.spelled = byte :: others ∧ byte ∈ asciiText "HTM" := by
  match secText with
  | .mime => exact ⟨ascii 'M', asciiText "IME", rfl, by decide⟩
  | .sectionMsgtext .header => exact ⟨ascii 'H', asciiText "EADER", rfl, by decide⟩
  | .sectionMsgtext (.headerFields names) => exact ⟨ascii 'H', asciiText "EADER.FIELDS" ++ ascii ' ' :: headerListText names, rfl, by decide⟩
  | .sectionMsgtext (.headerFieldsNot names) =>
      exact ⟨ascii 'H', asciiText "EADER.FIELDS.NOT" ++ ascii ' ' :: headerListText names, rfl, by decide⟩
  | .sectionMsgtext .text => exact ⟨ascii 'T', asciiText "EXT", rfl, by decide⟩

theorem EndsPart.noDigit (ends : EndsPart rest) : rest.takeWhile isDigit = [] := by
  cases ends with
  | bracket rest => exact List.takeWhile_cons_of_neg (by decide)
  | text rest => exact List.takeWhile_cons_of_neg (by decide)

theorem EndsPart.stops (ends : EndsPart rest) : StopsList (ascii '.') mailimapNzNumberAllocParse source rest := by
  intro indx turns structList at_
  cases ends with
  | bracket rest =>
      rw [structListLoop, mailimapUnstrictCharParse_other at_ (by decide) (by decide) (by decide)]
  | @text secText rest =>
      obtain ⟨byte, others, spelled, letter⟩ := spelled_head secText
      have behind : source.buffer.drop (indx + 1) = byte :: (others ++ rest) := by
        rw [spelled] at at_
        exact @drop_behind _ _ _ [ascii '.'] at_
      have letters : ∀ byte ∈ asciiText "HTM", isSpaceOrTab byte = false ∧ isDigit byte = false ∧ byte ≠ ascii '-' := by decide +kernel
      have plain := letters byte letter
      have noNumber : mailimapNumberParse source.buffer (indx + 1) = none := by
        apply mailimapNumberParse_none
        rw [behind, List.dropWhile_cons_of_neg (by rw [plain.1]; exact Bool.false_ne_true)]
        intro first isFirst
        cases isFirst
        exact plain.2
      rw [structListLoop, mailimapUnstrictCharParse_at at_ (by decide)]
      simp only [mailimapNzNumberAllocParse, onBuffer, mailimapNzNumberParse, noNumber]

theorem mailimapSectionPartParse_at {secId : List UInt32} (nonempty : secId ≠ []) (ends : EndsPart rest)
    (at_ : source.buffer.drop indx = joined (ascii '.') numberText secId ++ rest) :
    mailimapSectionPartParse source indx = (.ok (secId, indx + (joined (ascii '.') numberText secId).length), source) := by
  obtain ⟨first, others, rfl⟩ := List.exists_cons_of_ne_nil nonempty
  rw [mailimapSectionPartParse, mailimapStructListParse_at (numbers_read _) ends.noDigit ends.stops at_, List.map_id]

theorem mailimapSectionSpecParse_part {secId : List UInt32} (nonempty : secId ≠ []) (ends : EndsPart rest)
    (at_ : source.buffer.drop indx = joined (ascii '.') numberText secId ++ rest) :
    mailimapSectionSpecParse ctx source indx =
      sectionTextBehind ctx secId source (indx + (joined (ascii '.') numberText secId).length) := by
  have noMsgtext : mapParse MailimapSectionSpec.sectionMsgtext (mailimapSectionMsgtextParse ctx) source indx = (.error .parse, source) := by
    obtain ⟨first, others, rfl⟩ := List.exists_cons_of_ne_nil nonempty
    obtain ⟨digit, digits, spelled⟩ := List.exists_cons_of_ne_nil (decimal_ne_nil first.toNat)
    have isDigit_ : isDigit digit = true := decimal_digits digit (by rw [spelled]; exact List.mem_cons_self)
    have letters : ∀ byte, isDigit byte = true → tolower byte ≠ tolower (ascii 'H') ∧ tolower byte ≠ tolower (ascii 'T') :=
      forall_octet (by decide +kernel)
    have other := letters digit isDigit_
    rw [joined, numberText, spelled, List.append_assoc, List.cons_append] at at_
    exact mapParse_error (mailimapSectionMsgtextParse_none at_ (isDigit_plain isDigit_).1 other.1 other.2)
  rw [mailimapSectionSpecParse, orParse_second noMsgtext, mailimapSectionPartParse_at nonempty ends at_]

theorem mailimapSectionSpecParse_at {secSpec : MailimapSectionSpec} (proper : secSpec.Proper)
    (at_ : source.buffer.drop indx = secSpec.spelled ++ ascii ']' :: rest) :
    mailimapSectionSpecParse ctx source indx = (.ok (secSpec, indx + secSpec.spelled.length), source) := by
  match secSpec with
  | .sectionMsgtext msgtext => exact orParse_first (mapParse_ok (mailimapSectionMsgtextParse_at proper at_))
  | .sectionPart secId none =>
      have noDot : mailimapDotParse source.buffer (indx + (joined (ascii '.') numberText secId).length) = none :=
        mailimapUnstrictCharParse_other (drop_behind at_) (by decide) (by decide) (by decide)
      rw [mailimapSectionSpecParse_part proper.1 (.bracket rest) at_, sectionTextBehind, noDot]
      rfl
  | .sectionPart secId (some secText) =>
      rw [MailimapSectionSpec.spelled, List.append_assoc, List.cons_append] at at_
      have behind := drop_behind at_
      have dot : mailimapDotParse source.buffer (indx + (joined (ascii '.') numberText secId).length) = some _ :=
        mailimapUnstrictCharParse_at behind (by decide)
      have text := @mailimapSectionTextParse_at ctx _ _ _ _ (proper.2.2 secText rfl) (@drop_behind _ _ _ [ascii '.'] behind)
      rw [mailimapSectionSpecParse_part proper.1 (.text _) at_, sectionTextBehind, dot]
      simp only [List.length_singleton] at text
      simp only [text, MailimapSectionSpec.spelled, List.length_append, List.length_cons]
      congr 3
      omega

/-- The text that is sent for a section, before anything else in the buffer, is read back as the section, and the index
is behind the bracket.  The empty section comes back as NULL. -/
theorem mailimapSectionParse_send (ctx : ParserContext) (sec : Option MailimapSection) (proper : ∀ secSpec ∈ sec.bind (·.secSpec), secSpec.Proper)
    (before rest : List UInt8) (fd : Option Mailstream) :
    ∃ parsed, mailimapSectionParse ctx ⟨before ++ ((mailimapSectionSend sec).text ++ rest), fd⟩ before.length =
      (.ok (parsed, before.length + (mailimapSectionSend sec).text.length), ⟨before ++ ((mailimapSectionSend sec).text ++ rest), fd⟩) ∧
    parsed.bind (·.secSpec) = sec.bind (·.secSpec) ∧ parsed = sec.filter (·.secSpec.isSome) := by
  generalize isText : (mailimapSectionSend sec).text = text
  have start : (before ++ (text ++ rest)).drop before.length = text ++ rest := List.drop_left
  generalize before ++ (text ++ rest) = buffer at start
  cases spec : sec.bind (·.secSpec) with
  | none =>
      have empty : text = [ascii '[', ascii ']'] := by
        rw [← isText, mailimapSectionSend, spec]
        rfl
      rw [empty] at start ⊢
      have opened : mailimapObracketParse buffer before.length = some (before.length + 1) := mailimapUnstrictCharParse_at start (by decide)
      have behind : buffer.drop (before.length + 1) = ascii ']' :: rest := @drop_behind _ _ _ [ascii '['] start
      have closed : mailimapCbracketParse buffer (before.length + 1) = some (before.length + 2) :=
        mailimapUnstrictCharParse_at behind (by decide)
      have noSpec : mailimapSectionSpecParse ctx ⟨buffer, fd⟩ (before.length + 1) = (.error .parse, ⟨buffer, fd⟩) := by
        have noMsgtext : mailimapSectionMsgtextParse ctx ⟨buffer, fd⟩ (before.length + 1) = (.error .parse, ⟨buffer, fd⟩) :=
          mailimapSectionMsgtextParse_none behind (by decide) (by decide) (by decide)
        have noNumber : mailimapNumberParse buffer (before.length + 1) = none := by
          apply mailimapNumberParse_none
          rw [behind]
          intro first isFirst
          cases isFirst
          decide
        rw [mailimapSectionSpecParse, orParse_second (mapParse_error noMsgtext), mailimapSectionPartParse, mailimapStructListParse]
        simp only [mailimapNzNumberAllocParse, onBuffer, mailimapNzNumberParse, noNumber]
      refine ⟨none, ?_, rfl, ?_⟩
      · rw [mailimapSectionParse, headed_some opened, noSpec]
        simp only [closed]
        rfl
      · cases sec with
        | none => rfl
        | some sec => rw [Option.filter_some, if_neg (by rw [show sec.secSpec = none from spec]; exact Bool.false_ne_true)]
  | some secSpec =>
      have spelled : text = ascii '[' :: (secSpec.spelled ++ [ascii ']']) := by
        rw [← isText, mailimapSectionSend, spec]
        simp only [Sending.text_append, mailimapCharSend_text, mailimapSectionSpecSend_text (proper secSpec spec), List.append_assoc,
          List.singleton_append]
      rw [spelled] at start ⊢
      rw [List.cons_append, List.append_assoc, List.singleton_append] at start
      have opened : mailimapObracketParse buffer before.length = some (before.length + 1) := mailimapUnstrictCharParse_at start (by decide)
      have behind : buffer.drop (before.length + 1) = secSpec.spelled ++ ascii ']' :: rest := @drop_behind _ _ _ [ascii '['] start
      have read := @mailimapSectionSpecParse_at ctx ⟨buffer, fd⟩ _ _ _ (proper secSpec spec) behind
      have closed : mailimapCbracketParse buffer (before.length + 1 + secSpec.spelled.length) = some _ :=
        mailimapUnstrictCharParse_at (drop_behind behind) (by decide)
      obtain ⟨sec, rfl, isSpec⟩ := Option.bind_eq_some_iff.mp spec
      refine ⟨some sec, ?_, spec, ?_⟩
      · rw [mailimapSectionParse, headed_some opened, read]
        simp only [closed, Option.map_some, List.length_cons, List.length_append, List.length_nil]
        rw [← isSpec]
        congr 3
        omega
      · rw [Option.filter_some, isSpec]
        rfl

end Sections

def fieldsOfPart : Option MailimapSection :=
  some ⟨some (.sectionPart [1, 2] (some (.sectionMsgtext (.headerFieldsNot [asciiText "Subject", asciiText "X \"a\""]))))⟩

theorem mailimapSectionParse_send_fields :
    ∃ parsed, mailimapSectionParse ⟨false⟩ ⟨asciiText "BODY" ++ ((mailimapSectionSend fieldsOfPart).text ++ asciiText " NIL"), none⟩
        (asciiText "BODY").length =
      (.ok (parsed, (asciiText "BODY").length + (mailimapSectionSend fieldsOfPart).text.length),
        ⟨asciiText "BODY" ++ ((mailimapSectionSend fieldsOfPart).text ++ asciiText " NIL"), none⟩) ∧
    parsed.bind (·.secSpec) = fieldsOfPart.bind (·.secSpec) ∧ parsed = fieldsOfPart.filter (·.secSpec.isSome) := by
  have proper : ∀ secSpec ∈ fieldsOfPart.bind (·.secSpec), secSpec.Proper := by
    intro secSpec isSpec
    cases isSpec
    refine ⟨List.cons_ne_nil _ _, by simp, fun text isText => ?_⟩
    cases isText
    exact ⟨List.cons_ne_nil _ _, by decide +kernel⟩
  exact mailimapSectionParse_send ⟨false⟩ fieldsOfPart proper (asciiText "BODY") (asciiText " NIL") none

end Etpan.Imap
