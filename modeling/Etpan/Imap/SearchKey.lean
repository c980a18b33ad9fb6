import Etpan.Imap.CommandSyntax
import Etpan.Imap.Literal

namespace Etpan.Imap

open Etpan.Data

/-! The search keys of `low-level/imap/mailimap_types.h` and the senders of them in
`mailimap_sender.c`. -/

inductive SearchFlag where
  | all
  | answered
  | deleted
  | flagged
  | new
  | old
  | recent
  | seen
  | unanswered
  | undeleted
  | unflagged
  | unseen
  | draft
  | undraft
deriving Repr, DecidableEq

inductive SearchString where
  | bcc
  | body
  | cc
  | from_
  | subject
  | text
  | to
deriving Repr, DecidableEq

inductive SearchDate where
  | before
  | on
  | since
  | sentbefore
  | senton
  | sentsince
deriving Repr, DecidableEq

inductive SearchSize where
  | larger
  | smaller
deriving Repr, DecidableEq

def SearchFlag.token : SearchFlag → String
  | .all => "ALL"
  | .answered => "ANSWERED"
  | .deleted => "DELETED"
  | .flagged => "FLAGGED"
  | .new => "NEW"
  | .old => "OLD"
  | .recent => "RECENT"
  | .seen => "SEEN"
  | .unanswered => "UNANSWERED"
  | .undeleted => "UNDELETED"
  | .unflagged => "UNFLAGGED"
  | .unseen => "UNSEEN"
  | .draft => "DRAFT"
  | .undraft => "UNDRAFT"

def SearchString.token : SearchString → String
  | .bcc => "BCC"
  | .body => "BODY"
  | .cc => "CC"
  | .from_ => "FROM"
  | .subject => "SUBJECT"
  | .text => "TEXT"
  | .to => "TO"

def SearchDate.token : SearchDate → String
  | .before => "BEFORE"
  | .on => "ON"
  | .since => "SINCE"
  | .sentbefore => "SENTBEFORE"
  | .senton => "SENTON"
  | .sentsince => "SENTSINCE"

def SearchSize.token : SearchSize → String
  | .larger => "LARGER"
  | .smaller => "SMALLER"

structure Date where
  dtDay : Nat
  dtMonth : Nat
  dtYear : Nat
deriving Repr, DecidableEq

inductive EntryTypeReq where
  | priv
  | shared
  | all
deriving Repr, DecidableEq

inductive SearchKey where
  | flag (type : SearchFlag)
  | string (type : SearchString) (astring : List UInt8)
  | date (type : SearchDate) (date : Date)
  | size (type : SearchSize) (number : UInt32)
  | keyword (skKeyword : List UInt8)
  | unkeyword (skUnkeyword : List UInt8)
  | header (skHeaderName skHeaderValue : List UInt8)
  | not (skNot : SearchKey)
  | or (skOr1 skOr2 : SearchKey)
  | uid (skUid : NumberSet)
  | set (skSet : NumberSet)
  | xgmthrid (skXgmthrid : UInt64)
  | xgmmsgid (skXgmmsgid : UInt64)
  | xgmraw (skXgmraw : List UInt8)
  | multiple (skMultiple : List SearchKey)
  | modseq (skEntryName : Option Flag) (skEntryTypeReq : EntryTypeReq) (skModseqValzer : UInt64)
deriving Repr

def monthTab : List (Nat × String) :=
  [(1, "Jan"), (2, "Feb"), (3, "Mar"), (4, "Apr"), (5, "May"), (6, "Jun"), (7, "Jul"), (8, "Aug"), (9, "Sep"),
    (10, "Oct"), (11, "Nov"), (12, "Dec")]

def mailimapMonthGetTokenStr (indx : Nat) : Option String := monthTab.lookup indx

def mailimapDateDaySend (day : Nat) : Sending := mailimapNumberSend (UInt32.ofNat day)

/-- `none` is `MAILIMAP_ERROR_INVAL`. -/
def mailimapDateMonthSend (month : Nat) : Option Sending :=
  (mailimapMonthGetTokenStr month).map fun name => mailimapTokenSend (asciiText name)

def mailimapFixedDigitSend (num : Nat) : Nat → Sending
  | 0 => []
  | count + 1 => mailimapFixedDigitSend (num / 10) count ++ mailimapDigitSend (num % 10)

def mailimapDateYearSend (year : Nat) : Sending := mailimapFixedDigitSend year 4

def mailimapDateSend (date : Date) : Option Sending := do
  let month ← mailimapDateMonthSend date.dtMonth
  some (mailimapDateDaySend date.dtDay ++ mailimapCharSend (ascii '-') ++ month ++ mailimapCharSend (ascii '-') ++
    mailimapDateYearSend date.dtYear)

def isAscii (str : List UInt8) : Bool := str.all fun byte => byte < 128

def mailimapAstringLiteralplusSend (astring : List UInt8) (literalplusEnabled : Bool) : Option Sending :=
  if isAscii (cString astring) || !literalplusEnabled then some (mailimapAstringSend astring)
  else mailimapLiteralplusSend astring

def mailimapHeaderFldNameSend (headerFldName : List UInt8) : Sending := mailimapAstringSend headerFldName

def entryTypeReqSend : EntryTypeReq → Sending
  | .priv => mailimapTokenSend (asciiText "priv")
  | .shared => mailimapTokenSend (asciiText "shared")
  | .all => mailimapTokenSend (asciiText "all")

/-- `search-modseq-ext`; the backslash of a flag that is no keyword is sent twice. -/
def modseqExtSend (entryName : Flag) (entryTypeReq : EntryTypeReq) : Sending :=
  mailimapSpaceSend ++ mailimapDquoteSend ++ mailimapTokenSend (asciiText "/flags/") ++
    (match entryName with
    | .keyword _ => []
    | _ => mailimapTokenSend (asciiText "\\")) ++
    mailimapFlagSend entryName ++ mailimapDquoteSend ++ mailimapSpaceSend ++ entryTypeReqSend entryTypeReq

/-- A key with one argument: its token, a space and the argument. -/
def keyedSend (token : String) (argument : Sending) : Sending :=
  mailimapTokenSend (asciiText token) ++ mailimapSpaceSend ++ argument

mutual

/-- `none` is `MAILIMAP_ERROR_INVAL`. -/
def searchKeySend (literalplusEnabled toplevel : Bool) : SearchKey → Option Sending
  | .flag type => some (mailimapTokenSend (asciiText type.token))
  | .string type astring => (mailimapAstringLiteralplusSend astring literalplusEnabled).map (keyedSend type.token)
  | .date type date => (mailimapDateSend date).map (keyedSend type.token)
  | .size type number => some (keyedSend type.token (mailimapNumberSend number))
  | .keyword skKeyword => some (keyedSend "KEYWORD" (mailimapFlagKeywordSend skKeyword))
  | .unkeyword skUnkeyword =>
      (mailimapAstringLiteralplusSend skUnkeyword literalplusEnabled).map (keyedSend "UNKEYWORD")
  | .header skHeaderName skHeaderValue =>
      (mailimapAstringLiteralplusSend skHeaderValue literalplusEnabled).map fun value =>
        keyedSend "HEADER" (mailimapHeaderFldNameSend skHeaderName ++ mailimapSpaceSend ++ value)
  | .not skNot => (searchKeySend literalplusEnabled false skNot).map (keyedSend "NOT")
  | .or skOr1 skOr2 => do
      let first ← searchKeySend literalplusEnabled false skOr1
      let second ← searchKeySend literalplusEnabled false skOr2
      some (keyedSend "OR" (first ++ mailimapSpaceSend ++ second))
  | .uid skUid => some (keyedSend "UID" (mailimapSetSend skUid))
  | .set skSet => some (mailimapSetSend skSet)
  | .xgmthrid skXgmthrid => some (keyedSend "X-GM-THRID" (mailimapUint64Send skXgmthrid))
  | .xgmmsgid skXgmmsgid => some (keyedSend "X-GM-MSGID" (mailimapUint64Send skXgmmsgid))
  | .xgmraw skXgmraw => (mailimapAstringLiteralplusSend skXgmraw literalplusEnabled).map (keyedSend "X-GM-RAW")
  | .multiple skMultiple => do
      let keys ← searchKeyNotoplevelSends literalplusEnabled skMultiple
      let list := mailimapStructSpacedListSend keys id
      some (if toplevel then list else mailimapOparenthSend ++ list ++ mailimapCparenthSend)
  | .modseq skEntryName skEntryTypeReq skModseqValzer =>
      some (mailimapTokenSend (asciiText "MODSEQ") ++
        (match skEntryName with
        | some entryName => modseqExtSend entryName skEntryTypeReq
        | none => []) ++
        mailimapSpaceSend ++ mailimapModSequenceValueSend skModseqValzer)

def searchKeyNotoplevelSends (literalplusEnabled : Bool) : List SearchKey → Option (List Sending)
  | [] => some []
  | key :: keys => do
      let first ← searchKeySend literalplusEnabled false key
      let rest ← searchKeyNotoplevelSends literalplusEnabled keys
      some (first :: rest)

end

def mailimapSearchKeySend (key : SearchKey) : Option Sending := searchKeySend false true key

def mailimapSearchKeyLiteralplusSend (key : SearchKey) : Option Sending := searchKeySend true true key

mutual

def SearchKey.nodes : SearchKey → List SearchKey
  | .not skNot => .not skNot :: skNot.nodes
  | .or skOr1 skOr2 => .or skOr1 skOr2 :: (skOr1.nodes ++ skOr2.nodes)
  | .multiple skMultiple => .multiple skMultiple :: SearchKey.nodesOf skMultiple
  | key => [key]

def SearchKey.nodesOf : List SearchKey → List SearchKey
  | [] => []
  | key :: keys => key.nodes ++ SearchKey.nodesOf keys

end

/-- What is searched by the text of a whole command: a MULTIPLE at the top stands for its keys. -/
def SearchKey.topKeys : SearchKey → List SearchKey
  | .multiple skMultiple => skMultiple
  | key => [key]

end Etpan.Imap
