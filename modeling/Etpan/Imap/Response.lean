import Mathlib.Order.Interval.Finset.Nat
import Mathlib.Data.Finset.Union
import Etpan.Imap.StatusParse

namespace Etpan.Imap

open Etpan.Data

/-! What an answer of a server is parsed to, and what a session keeps of it:
`low-level/imap/mailimap_types.h` and the `_store` functions of `mailimap.c`. -/

inductive Flag where
  | answered
  | flagged
  | deleted
  | seen
  | draft
  | keyword (flKeyword : List UInt8)
  | extension (flExtension : List UInt8)
deriving Repr, DecidableEq

inductive FlagPerm where
  | flag (flFlag : Flag)
  | all
deriving Repr, DecidableEq

/-- An interval of a set; zero stands for `*`. -/
structure SetItem where
  setFirst : UInt32
  setLast : UInt32
deriving Repr, DecidableEq

abbrev NumberSet := List SetItem

/-- The number that a bound stands for when `*` is `star`. -/
def boundValue (star : Nat) (bound : UInt32) : Nat := if bound = 0 then star else bound.toNat

/-- The numbers that an interval denotes; its bounds may be in either order. -/
def SetItem.numbers (star : Nat) (item : SetItem) : Finset Nat :=
  Finset.Icc (min (boundValue star item.setFirst) (boundValue star item.setLast))
    (max (boundValue star item.setFirst) (boundValue star item.setLast))

def setNumbers (star : Nat) (set : NumberSet) : Finset Nat := set.toFinset.biUnion (SetItem.numbers star)

inductive CondstoreResptextcode where
  | highestmodseq (csModseqValue : UInt64)
  | nomodseq
  | modified (csModifiedSet : NumberSet)
deriving Repr, DecidableEq

structure Vanished where
  qrEarlier : Bool
  qrKnownUids : NumberSet
deriving Repr, DecidableEq

/-- `struct mailimap_extension_data`, with the data of the two extensions that are looked at. -/
inductive ExtensionData where
  | condstoreRespTextCode (code : CondstoreResptextcode)
  | condstoreSearchData (csSearchResult : List UInt32) (csModseqValue : UInt64)
  | qresyncVanished (vanished : Vanished)
  | qresyncClosed
  | other (extId extType : Nat)
deriving Repr, DecidableEq

inductive RespTextCode where
  | alert
  | badcharset (rcBadcharset : List (List UInt8))
  | capabilityData (rcCapData : List (List UInt8))
  | parse
  | permanentflags (rcPermFlags : List FlagPerm)
  | readOnly
  | readWrite
  | tryCreate
  | uidnext (rcUidnext : UInt32)
  | uidvalidity (rcUidvalidity : UInt32)
  | unseen (rcFirstUnseen : UInt32)
  | other (atomName : List UInt8) (atomValue : Option (List UInt8))
  | extension (rcExtData : ExtensionData)
deriving Repr, DecidableEq

structure RespText where
  rspCode : Option RespTextCode
  rspText : List UInt8
deriving Repr, DecidableEq

inductive RespCondStateType where
  | ok
  | no
  | bad
deriving Repr, DecidableEq

structure RespCondState where
  rspType : RespCondStateType
  rspText : RespText
deriving Repr, DecidableEq

/-- `struct mailimap_mailbox_list`, without the flags of the mailbox. -/
structure MailboxList where
  mbDelimiter : UInt8
  mbName : List UInt8
deriving Repr, DecidableEq

inductive MailboxData where
  | flags (mbdFlags : List Flag)
  | list (mbdList : MailboxList)
  | lsub (mbdLsub : MailboxList)
  | search (mbdSearch : Option (List UInt32))
  | status (mbdStatus : MailboxDataStatus)
  | exists_ (mbdExists : UInt32)
  | recent (mbdRecent : UInt32)
  | extensionData (mbdExtension : ExtensionData)
deriving Repr, DecidableEq

/-- `struct mailimap_msg_att`, without the attributes of the message. -/
structure MsgAtt where
  attNumber : UInt32
deriving Repr, DecidableEq

inductive MessageData where
  | expunge (mdtNumber : UInt32)
  | fetch (mdtNumber : UInt32) (mdtMsgAtt : MsgAtt)
deriving Repr, DecidableEq

inductive ResponseData where
  | condState (rspCondState : RespCondState)
  | condBye (rspBye : RespText)
  | mailboxData (rspMailboxData : MailboxData)
  | messageData (rspMessageData : MessageData)
  | capabilityData (rspCapabilityData : List (List UInt8))
  | extensionData (rspExtensionData : ExtensionData)
deriving Repr, DecidableEq

inductive ContReqOrRespData where
  | contReq
  | respData (rspRespData : ResponseData)
deriving Repr, DecidableEq

inductive ResponseDone where
  | tagged (rspTag : List UInt8) (rspCondState : RespCondState)
  | fatal (rspBye : RespText)
deriving Repr, DecidableEq

structure Response where
  rspContReqOrRespDataList : List ContReqOrRespData
  rspRespDone : ResponseDone
deriving Repr, DecidableEq

inductive MailboxPerm where
  | readonly
  | readwrite
deriving Repr, DecidableEq

structure SelectionInfo where
  selPermFlags : Option (List FlagPerm)
  selPerm : MailboxPerm
  selUidnext : UInt32
  selUidvalidity : UInt32
  selFirstUnseen : UInt32
  selFlags : Option (List Flag)
  selExists : UInt32
  selRecent : UInt32
  selUnseen : UInt32
  selHasExists : Bool
  selHasRecent : Bool
deriving Repr, DecidableEq

def mailimapSelectionInfoNew : SelectionInfo where
  selPermFlags := none
  selPerm := .readwrite
  selUidnext := 0
  selUidvalidity := 0
  selFirstUnseen := 0
  selFlags := none
  selExists := 0
  selRecent := 0
  selUnseen := 0
  selHasExists := false
  selHasRecent := false

structure ResponseInfo where
  rspAlert : Option (List UInt8)
  rspParse : Option (List UInt8)
  rspBadcharset : Option (List (List UInt8))
  rspTrycreate : Bool
  rspMailboxList : List MailboxList
  rspMailboxLsub : List MailboxList
  rspSearchResult : Option (List UInt32)
  rspStatus : Option MailboxDataStatus
  rspExpunged : List UInt32
  rspFetchList : Option (List MsgAtt)
  rspExtensionList : List ExtensionData
  rspAtom : Option (List UInt8)
  rspValue : Option (List UInt8)
deriving Repr, DecidableEq

def mailimapResponseInfoNew : ResponseInfo where
  rspAlert := none
  rspParse := none
  rspBadcharset := none
  rspTrycreate := false
  rspMailboxList := []
  rspMailboxLsub := []
  rspSearchResult := some []
  rspStatus := none
  rspExpunged := []
  rspFetchList := some []
  rspExtensionList := []
  rspAtom := none
  rspValue := none

inductive ImapState where
  | disconnected
  | nonAuthenticated
  | authenticated
  | selected
deriving Repr, DecidableEq

/-- The fields of `struct mailimap` that the commands read and write.  The capabilities are
those of the connection information, which may be missing as well. -/
structure Session where
  imapState : ImapState
  imapTag : Nat
  imapSelectionInfo : Option SelectionInfo
  imapResponseInfo : Option ResponseInfo
  imapConnectionInfo : Option (Option (List (List UInt8)))
  is163WorkaroundEnabled : Bool
deriving Repr, DecidableEq

def mailimapNew : Session where
  imapState := .disconnected
  imapTag := 0
  imapSelectionInfo := none
  imapResponseInfo := none
  imapConnectionInfo := none
  is163WorkaroundEnabled := false

def Session.updateSelection (session : Session) (update : SelectionInfo → SelectionInfo) : Session :=
  { session with imapSelectionInfo := session.imapSelectionInfo.map update }

def Session.updateResponse (session : Session) (update : ResponseInfo → ResponseInfo) : Session :=
  { session with imapResponseInfo := session.imapResponseInfo.map update }

def Session.updateCapability (session : Session) (capability : List (List UInt8)) : Session :=
  { session with imapConnectionInfo := session.imapConnectionInfo.map fun _ => some capability }

def mailimapExtensionDataStore (session : Session) (extData : ExtensionData) : Session :=
  session.updateResponse fun info => { info with rspExtensionList := info.rspExtensionList ++ [extData] }

def respTextStore (session : Session) (respText : RespText) : Session :=
  match respText.rspCode with
  | none => session
  | some .alert => session.updateResponse fun info => { info with rspAlert := some respText.rspText }
  | some (.badcharset rcBadcharset) =>
      session.updateResponse fun info => { info with rspBadcharset := some rcBadcharset }
  | some (.capabilityData rcCapData) => session.updateCapability rcCapData
  | some .parse => session.updateResponse fun info => { info with rspParse := some respText.rspText }
  | some (.permanentflags rcPermFlags) =>
      session.updateSelection fun info => { info with selPermFlags := some rcPermFlags }
  | some .readOnly => session.updateSelection fun info => { info with selPerm := .readonly }
  | some .readWrite => session.updateSelection fun info => { info with selPerm := .readwrite }
  | some .tryCreate => session.updateResponse fun info => { info with rspTrycreate := true }
  | some (.uidnext rcUidnext) => session.updateSelection fun info => { info with selUidnext := rcUidnext }
  | some (.uidvalidity rcUidvalidity) =>
      session.updateSelection fun info => { info with selUidvalidity := rcUidvalidity }
  | some (.unseen rcFirstUnseen) => session.updateSelection fun info => { info with selFirstUnseen := rcFirstUnseen }
  | some (.other atomName atomValue) =>
      session.updateResponse fun info => { info with rspAtom := some atomName, rspValue := atomValue }
  | some (.extension rcExtData) => mailimapExtensionDataStore session rcExtData

def respCondStateStore (session : Session) (respCondState : RespCondState) : Session :=
  respTextStore session respCondState.rspText

def respCondByeStore (session : Session) (respCondBye : RespText) : Session := respTextStore session respCondBye

def mailboxDataStore (session : Session) (mbData : MailboxData) : Session :=
  match mbData with
  | .flags mbdFlags => session.updateSelection fun info => { info with selFlags := some mbdFlags }
  | .list mbdList => session.updateResponse fun info => { info with rspMailboxList := info.rspMailboxList ++ [mbdList] }
  | .lsub mbdLsub => session.updateResponse fun info => { info with rspMailboxLsub := info.rspMailboxLsub ++ [mbdLsub] }
  | .search mbdSearch =>
      session.updateResponse fun info =>
        { info with rspSearchResult := match info.rspSearchResult, mbdSearch with
            | some result, some found => some (result ++ found)
            | some result, none => some result
            | none, found => found }
  | .status mbdStatus => session.updateResponse fun info => { info with rspStatus := some mbdStatus }
  | .exists_ mbdExists =>
      session.updateSelection fun info => { info with selExists := mbdExists, selHasExists := true }
  | .recent mbdRecent =>
      session.updateSelection fun info => { info with selRecent := mbdRecent, selHasRecent := true }
  | .extensionData mbdExtension => mailimapExtensionDataStore session mbdExtension

/-- The count of messages is an unsigned number of 32 bits, and nothing tests for zero. -/
def messageDataStore (session : Session) (msgData : MessageData) : Session :=
  match msgData with
  | .expunge mdtNumber =>
      match session.imapResponseInfo with
      | some info =>
          { session with imapResponseInfo := some { info with rspExpunged := info.rspExpunged ++ [mdtNumber] } }.updateSelection
            fun info => { info with selExists := info.selExists - 1 }
      | none => session
  | .fetch mdtNumber _ =>
      session.updateResponse fun info =>
        { info with rspFetchList := info.rspFetchList.map (· ++ [{ attNumber := mdtNumber }]) }

def contReqOrRespDataStore (session : Session) (data : ContReqOrRespData) : Session :=
  match data with
  | .contReq => session
  | .respData (.condState rspCondState) => respCondStateStore session rspCondState
  | .respData (.condBye _) => session
  | .respData (.mailboxData rspMailboxData) => mailboxDataStore session rspMailboxData
  | .respData (.messageData rspMessageData) => messageDataStore session rspMessageData
  | .respData (.capabilityData rspCapabilityData) => session.updateCapability rspCapabilityData
  | .respData (.extensionData rspExtensionData) => mailimapExtensionDataStore session rspExtensionData

def responseDoneStore (session : Session) (respDone : ResponseDone) : Session :=
  match respDone with
  | .tagged _ rspCondState => respCondStateStore session rspCondState
  | .fatal rspBye => respCondByeStore session rspBye

def responseStore (session : Session) (response : Response) : Session :=
  responseDoneStore
    (response.rspContReqOrRespDataList.foldl contReqOrRespDataStore
      { session with imapResponseInfo := some mailimapResponseInfoNew })
    response.rspRespDone

end Etpan.Imap
