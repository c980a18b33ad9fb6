import Etpan.Imap.MessageSet
import Etpan.Imap.Session

namespace Etpan.Imap

open Etpan.Data Etpan.Stream

/-! The frame of an answer, `low-level/imap/mailimap_parser.c`, and the search data of `condstore.c`.

The parsers try their alternatives in the order of the source; what an alternative does behind the token that it starts
with is an argument where no answer of a search comes to it. -/

/-- The next alternative is tried where this one ends in MAILIMAP_ERROR_PARSE, on the buffer as it was left. -/
def orParse {α : Type} (first second : Parser α) : Parser α := fun source indx =>
  match first source indx with
  | (.error .parse, source) => second source indx
  | result => result

def mapParse {α β : Type} (wrap : α → β) (parser : Parser α) : Parser β := fun source indx =>
  let parsed := parser source indx
  (parsed.1.map fun found => (wrap found.1, found.2), parsed.2)

/-- Tokens that are looked for in the buffer, and what follows them. -/
def headed {α : Type} (head : List UInt8 → Nat → Option Nat) (rest : Parser α) : Parser α := fun source indx =>
  match head source.buffer indx with
  | none => (.error .parse, source)
  | some curToken => rest source curToken

def wordHead (word : String) (buffer : List UInt8) (indx : Nat) : Option Nat :=
  mailimapTokenCaseInsensitiveParse buffer indx (asciiText word) >>= mailimapSpaceParse buffer

structure Alternatives where
  /-- `mailimap_resp_text_code_parse`. -/
  respTextCode : Parser RespTextCode
  /-- A continuation request behind its plus sign. -/
  continueReq : Parser Unit
  /-- `mailimap_flag_list_parse`. -/
  flagList : Parser (List Flag)
  /-- `mailimap_mailbox_list_parse`. -/
  mailboxList : Parser MailboxList
  /-- The parsers of extensions in the data of a mailbox, before and after that of CONDSTORE. -/
  extensionsBefore : Parser ExtensionData
  extensionsAfter : Parser ExtensionData
  /-- `mailimap_message_data_parse_progress`. -/
  messageData : Parser MessageData
  /-- `mailimap_capability_data_parse`. -/
  capabilityData : Parser (List (List UInt8))
  /-- `mailimap_extension_data_parse` for the data of a response. -/
  extensionData : Parser ExtensionData
  /-- `mailimap_malformed_fetch_response_skip`, which the parser context can turn off. -/
  malformedFetchSkip : Option (Parser Unit)

def isTextChar (ch : UInt8) : Bool := ch ≠ CR && ch ≠ LF && ch ≠ 0

def isTagChar (ch : UInt8) : Bool := ch ≠ ascii '+' && isAstringChar ch

def mailimapTextParse (buffer : List UInt8) (indx : Nat) : Option (List UInt8 × Nat) := mailimapCustomStringParse isTextChar buffer indx

def mailimapTagParse (buffer : List UInt8) (indx : Nat) : Option (List UInt8 × Nat) := mailimapCustomStringParse isTagChar buffer indx

section Alternatives

variable (ctx : ParserContext) (alternatives : Alternatives)

/-- A code between brackets, with the spaces behind it. -/
def mailimapRespTextRespTextCodeParse : Parser RespTextCode :=
  headed (mailimapUnstrictCharParse · · (ascii '[')) fun source indx =>
    match alternatives.respTextCode source indx with
    | (.ok (textCode, curToken), source) =>
        match mailimapUnstrictCharParse source.buffer curToken (ascii ']') with
        | none => (.error .parse, source)
        | some curToken => (.ok (textCode, skipSpace source.buffer curToken), source)
    | failed => failed

/-- The code and the text may both be missing. -/
def mailimapRespTextParse : Parser RespText := fun source indx =>
  let coded : Except ParseError (Option RespTextCode × Nat) × Source :=
    match mailimapRespTextRespTextCodeParse alternatives source indx with
    | (.ok (textCode, curToken), source) => (.ok (some textCode, curToken), source)
    | (.error .parse, source) => (.ok (none, indx), source)
    | (.error reason, source) => (.error reason, source)
  match coded with
  | (.error reason, source) => (.error reason, source)
  | (.ok (rspCode, curToken), source) =>
      match mailimapTextParse source.buffer curToken with
      | some (rspText, curToken) => (.ok ({ rspCode, rspText }, curToken), source)
      | none => (.ok ({ rspCode, rspText := [] }, curToken), source)

def respCondStateTab : List (RespCondStateType × List UInt8) :=
  [(.ok, asciiText "OK"), (.no, asciiText "NO"), (.bad, asciiText "BAD")]

def mailimapRespCondStateParse : Parser RespCondState := fun source indx =>
  match mailimapGetTokenValue source.buffer indx respCondStateTab with
  | none => (.error .parse, source)
  | some (rspType, curToken) =>
      headed mailimapSpaceParse (mapParse (fun rspText => { rspType, rspText }) (mailimapRespTextParse alternatives)) source curToken

def mailimapRespCondByeParse : Parser RespText := headed (wordHead "BYE") (mailimapRespTextParse alternatives)

def mailimapNzNumberAllocParse : Parser UInt32 := onBuffer mailimapNzNumberParse

/-- The list is left out where no number follows. -/
def mailimapMailboxDataSearchParse : Parser (Option (List UInt32)) :=
  headed (mailimapTokenCaseInsensitiveParse · · (asciiText "SEARCH")) fun source finalToken =>
    match mailimapSpaceParse source.buffer finalToken with
    | none => (.ok (none, finalToken), source)
    | some curToken =>
        match mailimapStructSpacedListParse mailimapNzNumberAllocParse source curToken with
        | (.ok (numberList, curToken), source) => (.ok (some numberList, curToken), source)
        | (.error _, source) => (.ok (none, finalToken), source)

def searchDataParse : Parser ExtensionData :=
  headed (wordHead "SEARCH") fun source indx =>
    match mailimapStructSpacedListParse mailimapNzNumberAllocParse source indx with
    | (.error reason, source) => (.error reason, source)
    | (.ok (numberList, curToken), source) =>
        let value := do
          let curToken ← mailimapSpaceParse source.buffer curToken
          let curToken ← mailimapOparenthParse source.buffer curToken
          let (value, curToken) ← mailimapModSequenceValueParse source.buffer curToken
          let curToken ← mailimapCparenthParse source.buffer curToken
          some (value, curToken)
        match value with
        | none => (.error .parse, source)
        | some (value, curToken) => (.ok (.condstoreSearchData numberList value, curToken), source)

def numberedParse (word : String) (buffer : List UInt8) (indx : Nat) : Option (UInt32 × Nat) := do
  let (number, curToken) ← mailimapNumberParse buffer indx
  let curToken ← mailimapSpaceParse buffer curToken
  let curToken ← mailimapTokenCaseInsensitiveParse buffer curToken (asciiText word)
  some (number, curToken)

def mailimapMailboxDataParse : Parser MailboxData :=
  [mapParse .flags (headed (wordHead "FLAGS") alternatives.flagList),
    mapParse .list (headed (wordHead "LIST") alternatives.mailboxList),
    mapParse .lsub (headed (wordHead "LSUB") alternatives.mailboxList),
    mapParse .search mailimapMailboxDataSearchParse,
    mapParse .status (mailimapMailboxDataStatusParse ctx),
    mapParse .exists_ (onBuffer (numberedParse "EXISTS")),
    mapParse .recent (onBuffer (numberedParse "RECENT")),
    mapParse .extensionData (orParse alternatives.extensionsBefore (orParse searchDataParse alternatives.extensionsAfter))].foldr
      orParse fun source _ => (.error .parse, source)

def lineEnded {α : Type} (parser : Parser α) : Parser α := fun source indx =>
  match parser source indx with
  | (.error reason, source) => (.error reason, source)
  | (.ok (value, curToken), source) =>
      match mailimapCrlfParse source.buffer curToken with
      | none => (.error .parse, source)
      | some curToken => (.ok (value, curToken), source)

def starHead (buffer : List UInt8) (indx : Nat) : Option Nat := mailimapStarParse buffer indx >>= mailimapSpaceParse buffer

/-- The result is missing where a malformed FETCH response was skipped. -/
def mailimapResponseDataParse : Parser (Option ResponseData) :=
  let data : List (Parser ResponseData) :=
    [mapParse .condState (mailimapRespCondStateParse alternatives),
      mapParse .condBye (mailimapRespCondByeParse alternatives),
      mapParse .mailboxData (mailimapMailboxDataParse ctx alternatives),
      mapParse .messageData alternatives.messageData,
      mapParse .capabilityData alternatives.capabilityData,
      mapParse .extensionData alternatives.extensionData]
  headed starHead fun source indx =>
    match data.foldr orParse (fun source _ => (.error .parse, source)) source indx, alternatives.malformedFetchSkip with
    | (.error .parse, source), some skip => mapParse (fun _ => none) skip source indx
    | result, _ => lineEnded (mapParse some fun _ _ => result) source indx

/-- One more line is read into the buffer. -/
def followingLine (source : Source) (curToken : Nat) : Except ParseError Unit × Source :=
  let read := appendFollowingLine source curToken []
  (read.1.map fun _ => (), read.2)

/-- The blank lines before a response; each takes octets that are not read again, so that `turns` may be their number. -/
def skipBlankLines : Nat → Source → Nat → Except ParseError Nat × Source
  | 0, source, curToken => (.ok curToken, source)
  | turns + 1, source, curToken =>
      match mailimapCrlfParse source.buffer curToken with
      | none => (.ok curToken, source)
      | some curToken =>
          match followingLine source curToken with
          | (.error reason, source) => (.error reason, source)
          | (.ok (), source) => skipBlankLines turns source curToken

def mailimapContReqOrRespDataParse : Parser (Option ContReqOrRespData) := fun source indx =>
  match skipBlankLines (source.octets + 1) source indx with
  | (.error reason, source) => (.error reason, source)
  | (.ok curToken, source) =>
      let parsed := orParse
        (mapParse (fun _ => some .contReq) (headed (mailimapUnstrictCharParse · · (ascii '+')) alternatives.continueReq))
        (mapParse (Option.map .respData) (mailimapResponseDataParse ctx alternatives)) source curToken
      match parsed with
      | (.error reason, source) => (.error reason, source)
      | (.ok (data, curToken), source) =>
          match followingLine source curToken with
          | (.error reason, source) => (.error reason, source)
          | (.ok (), source) => (.ok (data, curToken), source)

/-- The loop of `mailimap_struct_multiple_parse_progress` behind its first item. -/
def structMultipleLoop {α : Type} (parser : Parser (Option α)) :
    Nat → Source → Nat → List α → Except ParseError (List α × Nat) × Source
  | 0, source, curToken, structList => (.ok (structList, curToken), source)
  | turns + 1, source, curToken, structList =>
      match parser source curToken with
      | (.error .parse, source) => (.ok (structList, curToken), source)
      | (.error reason, source) => (.error reason, source)
      | (.ok (value, curToken), source) => structMultipleLoop parser turns source curToken (structList ++ value.toList)

def mailimapStructMultipleParse {α : Type} (parser : Parser (Option α)) : Parser (List α) := fun source indx =>
  match parser source indx with
  | (.error reason, source) => (.error reason, source)
  | (.ok (value, curToken), source) => structMultipleLoop parser (source.octets + 1) source curToken value.toList

/-- No end of a line is looked for. -/
def mailimapResponseTaggedParse : Parser ResponseDone := fun source indx =>
  match mailimapTagParse source.buffer indx with
  | none => (.error .parse, source)
  | some (tag, curToken) => headed mailimapSpaceParse (mapParse (.tagged tag) (mailimapRespCondStateParse alternatives)) source curToken

def mailimapResponseFatalParse : Parser ResponseDone :=
  mapParse .fatal (headed starHead (lineEnded (mailimapRespCondByeParse alternatives)))

def mailimapResponseDoneParse : Parser ResponseDone :=
  orParse (mailimapResponseTaggedParse alternatives) (mailimapResponseFatalParse alternatives)

def ContReqOrRespData.isBye : ContReqOrRespData → Bool
  | .respData (.condBye _) => true
  | _ => false

def mailimapResponseParse : Parser Response := fun source indx =>
  let listed : Except ParseError (List ContReqOrRespData × Nat) × Source :=
    match mailimapStructMultipleParse (mailimapContReqOrRespDataParse ctx alternatives) source indx with
    | (.error .parse, source) => (.ok ([], indx), source)
    | result => result
  match listed with
  | (.error reason, source) => (.error reason, source)
  | (.ok (rspContReqOrRespDataList, curToken), source) =>
      if rspContReqOrRespDataList.any ContReqOrRespData.isBye then (.error .stream, source)
      else mapParse (fun rspRespDone => { rspContReqOrRespDataList, rspRespDone }) (mailimapResponseDoneParse alternatives) source curToken

end Alternatives

end Etpan.Imap
