import Etpan.Imap.Parser

namespace Etpan.Imap

open Etpan.Data Etpan.Stream

/-! Lists of items and the STATUS response, `low-level/imap/mailimap_parser.c`; the one
attribute that an extension reads is that of `low-level/imap/condstore.c`. -/

def onBuffer {α : Type} (parse : List UInt8 → Nat → Option (α × Nat)) : Parser α := fun source indx =>
  match parse source.buffer indx with
  | some found => (.ok found, source)
  | none => (.error .parse, source)

/-- The loop over the items behind the first.  Every item takes octets that are not read
again, so that `turns` may be their number. -/
def structListLoop {α : Type} (symbol : UInt8) (parser : Parser α) :
    Nat → Source → Nat → List α → Nat → Except ParseError (List α × Nat) × Source
  | 0, source, _, structList, finalToken => (.ok (structList, finalToken), source)
  | turns + 1, source, curToken, structList, finalToken =>
      match mailimapUnstrictCharParse source.buffer curToken symbol with
      | none => (.ok (structList, finalToken), source)
      | some curToken =>
          let item := parser source curToken
          match item.1 with
          | .error .parse => (.ok (structList, finalToken), item.2)
          | .error reason => (.error reason, item.2)
          | .ok (value, curToken) => structListLoop symbol parser turns item.2 curToken (structList ++ [value]) curToken

def mailimapStructListParse {α : Type} (symbol : UInt8) (parser : Parser α) : Parser (List α) := fun source indx =>
  let first := parser source indx
  match first.1 with
  | .error reason => (.error reason, first.2)
  | .ok (value, curToken) => structListLoop symbol parser (source.octets + 1) first.2 curToken [value] curToken

def mailimapStructSpacedListParse {α : Type} (parser : Parser α) : Parser (List α) :=
  mailimapStructListParse (ascii ' ') parser

/-- Words with spaces between them; the name is the text as it stands in the buffer. -/
def mailimapMailboxGmailParse (ctx : ParserContext) : Parser (List UInt8) := fun source indx =>
  let astrings := mailimapStructSpacedListParse (mailimapAstringParse ctx) source indx
  match astrings.1 with
  | .error reason => (.error reason, astrings.2)
  | .ok (_, curToken) => (.ok ((astrings.2.buffer.drop indx).take (curToken - indx), curToken), astrings.2)

inductive StatusAtt where
  | messages
  | recent
  | uidnext
  | uidvalidity
  | unseen
  | highestmodseq
  | size
  | extension
deriving Repr, DecidableEq

def statusAttTab : List (StatusAtt × List UInt8) :=
  [(.messages, asciiText "MESSAGES"), (.recent, asciiText "RECENT"), (.uidnext, asciiText "UIDNEXT"),
    (.uidvalidity, asciiText "UIDVALIDITY"), (.unseen, asciiText "UNSEEN"),
    (.highestmodseq, asciiText "HIGHESTMODSEQ"), (.size, asciiText "SIZE")]

/-- `mailimap_get_token_value`: the first entry of the table that is in the buffer. -/
def mailimapGetTokenValue {α : Type} (buffer : List UInt8) (indx : Nat) (tab : List (α × List UInt8)) : Option (α × Nat) :=
  tab.findSome? fun entry => (mailimapTokenCaseInsensitiveParse buffer indx entry.2).map fun curToken => (entry.1, curToken)

def mailimapStatusAttParse (buffer : List UInt8) (indx : Nat) : Option (StatusAtt × Nat) :=
  mailimapGetTokenValue buffer (skipSpace buffer indx) statusAttTab

/-- The value wraps when it does not fit. -/
def mailimapUint64Parse (buffer : List UInt8) (indx : Nat) : Option (UInt64 × Nat) :=
  let curToken := skipSpace buffer indx
  let digits := (buffer.drop curToken).takeWhile isDigit
  let number := digits.foldl (fun number digit => number * 10 + UInt64.ofNat (digit.toNat - 48)) 0
  if digits = [] then none else some (number, curToken + digits.length)

def mailimapModSequenceValueParse (buffer : List UInt8) (indx : Nat) : Option (UInt64 × Nat) :=
  mailimapUint64Parse buffer indx

/-- `struct mailimap_status_info`; the data of the extension is a mod-sequence value. -/
structure StatusInfo where
  stAtt : StatusAtt
  stValue : UInt32
  stExtData : Option UInt64
deriving Repr, DecidableEq

/-- `status_info_parse` of `condstore.c`. -/
def condstoreStatusInfoParse (buffer : List UInt8) (indx : Nat) : Option (UInt64 × Nat) := do
  let (statusAtt, curToken) ← mailimapStatusAttParse buffer indx
  if statusAtt ≠ .highestmodseq then none
  else
    let curToken ← mailimapSpaceParse buffer curToken
    mailimapModSequenceValueParse buffer curToken

def mailimapStatusInfoParse (buffer : List UInt8) (indx : Nat) : Option (StatusInfo × Nat) :=
  match (mailimapStatusAttParse buffer indx).filter fun found => found.1 ≠ .highestmodseq with
  | none => do
      let (value, curToken) ← condstoreStatusInfoParse buffer indx
      some ({ stAtt := .extension, stValue := 0, stExtData := some value }, curToken)
  | some (statusAtt, curToken) => do
      let curToken ← mailimapSpaceParse buffer curToken
      let (value, curToken) ← mailimapNumberParse buffer curToken
      some ({ stAtt := statusAtt, stValue := value, stExtData := none }, curToken)

/-- `struct mailimap_mailbox_data_status`; the list may be `NULL`. -/
structure MailboxDataStatus where
  stMailbox : List UInt8
  stInfoList : Option (List StatusInfo)
deriving Repr, DecidableEq

/-- What follows the name, up to the closing parenthesis. -/
def statusInfosParse (mb : List UInt8) (source : Source) (curToken : Nat) :
    Except ParseError (MailboxDataStatus × Nat) × Source :=
  match mailimapSpaceParse source.buffer curToken >>= mailimapOparenthParse source.buffer with
  | none => (.error .parse, source)
  | some curToken =>
      let infos := mailimapStructSpacedListParse (onBuffer mailimapStatusInfoParse) source curToken
      let closed : Except ParseError (Option (List StatusInfo) × Nat) := match infos.1 with
        | .ok (statusInfoList, curToken) => .ok (some statusInfoList, curToken)
        | .error .parse => .ok (none, curToken)
        | .error reason => .error reason
      match closed with
      | .error reason => (.error reason, infos.2)
      | .ok (stInfoList, curToken) =>
          match mailimapCparenthParse infos.2.buffer curToken with
          | none => (.error .parse, infos.2)
          | some curToken => (.ok ({ stMailbox := mb, stInfoList }, curToken), infos.2)

def mailimapMailboxDataStatusParse (ctx : ParserContext) : Parser MailboxDataStatus := fun source indx =>
  match mailimapTokenCaseInsensitiveParse source.buffer indx (asciiText "STATUS") >>= mailimapSpaceParse source.buffer with
  | none => (.error .parse, source)
  | some curToken =>
      let mailbox := mailimapMailboxGmailParse ctx source curToken
      match mailbox.1 with
      | .error reason => (.error reason, mailbox.2)
      | .ok (mb, curToken) => statusInfosParse mb mailbox.2 curToken

end Etpan.Imap
