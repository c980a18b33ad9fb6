import Etpan.Imap.Response

namespace Etpan.Imap

/-! What the responses of a server say about the selected mailbox, and the count of messages
that the session keeps of it. -/

def RespText.describe (respText : RespText) (info : SelectionInfo) : SelectionInfo :=
  match respText.rspCode with
  | some (.permanentflags rcPermFlags) => { info with selPermFlags := some rcPermFlags }
  | some .readOnly => { info with selPerm := .readonly }
  | some .readWrite => { info with selPerm := .readwrite }
  | some (.uidnext rcUidnext) => { info with selUidnext := rcUidnext }
  | some (.uidvalidity rcUidvalidity) => { info with selUidvalidity := rcUidvalidity }
  | some (.unseen rcFirstUnseen) => { info with selFirstUnseen := rcFirstUnseen }
  | _ => info

/-- The record after a response; every other response leaves it as it is. -/
def ContReqOrRespData.describe (data : ContReqOrRespData) (info : SelectionInfo) : SelectionInfo :=
  match data with
  | .respData (.condState rspCondState) => rspCondState.rspText.describe info
  | .respData (.mailboxData (.flags mbdFlags)) => { info with selFlags := some mbdFlags }
  | .respData (.mailboxData (.exists_ mbdExists)) => { info with selExists := mbdExists, selHasExists := true }
  | .respData (.mailboxData (.recent mbdRecent)) => { info with selRecent := mbdRecent, selHasRecent := true }
  | .respData (.messageData (.expunge _)) => { info with selExists := info.selExists - 1 }
  | _ => info

def ResponseDone.describe (done : ResponseDone) (info : SelectionInfo) : SelectionInfo :=
  match done with
  | .tagged _ rspCondState => rspCondState.rspText.describe info
  | .fatal rspBye => rspBye.describe info

def Response.describe (response : Response) (info : SelectionInfo) : SelectionInfo :=
  response.rspRespDone.describe
    (response.rspContReqOrRespDataList.foldl (fun info data => data.describe info) info)

/-- What a store does to the session apart from the record of the mailbox and the results of
the command: nothing. -/
structure Stored (before after : Session) (describe : SelectionInfo → SelectionInfo) : Prop where
  selection : after.imapSelectionInfo = before.imapSelectionInfo.map describe
  state : after.imapState = before.imapState
  tag : after.imapTag = before.imapTag
  workaround : after.is163WorkaroundEnabled = before.is163WorkaroundEnabled
  response : before.imapResponseInfo.isSome = true → after.imapResponseInfo.isSome = true

theorem Stored.trans {before middle after : Session} {first second : SelectionInfo → SelectionInfo}
    (one : Stored before middle first) (two : Stored middle after second) :
    Stored before after fun info => second (first info) where
  selection := by
    rw [two.selection, one.selection, Option.map_map]
    rfl
  state := two.state.trans one.state
  tag := two.tag.trans one.tag
  workaround := two.workaround.trans one.workaround
  response := fun isSome => two.response (one.response isSome)

theorem stored_refl (session : Session) : Stored session session id where
  selection := by rw [Option.map_id]; rfl
  state := rfl
  tag := rfl
  workaround := rfl
  response := id

theorem stored_updateSelection (session : Session) (update : SelectionInfo → SelectionInfo) :
    Stored session (session.updateSelection update) update :=
  ⟨rfl, rfl, rfl, rfl, id⟩

theorem stored_updateResponse (session : Session) (update : ResponseInfo → ResponseInfo) :
    Stored session (session.updateResponse update) id where
  selection := by rw [Option.map_id]; rfl
  state := rfl
  tag := rfl
  workaround := rfl
  response := by
    intro isSome
    rw [Session.updateResponse, Option.isSome_map]
    exact isSome

theorem stored_updateCapability (session : Session) (capability : List (List UInt8)) :
    Stored session (session.updateCapability capability) id where
  selection := by rw [Option.map_id]; rfl
  state := rfl
  tag := rfl
  workaround := rfl
  response := id

theorem stored_respText (session : Session) (respText : RespText) :
    Stored session (respTextStore session respText) respText.describe := by
  obtain ⟨code, text⟩ := respText
  cases code with
  | none => exact stored_refl session
  | some code =>
      cases code with
      | alert => exact stored_updateResponse session _
      | badcharset rcBadcharset => exact stored_updateResponse session _
      | capabilityData rcCapData => exact stored_updateCapability session _
      | parse => exact stored_updateResponse session _
      | permanentflags rcPermFlags => exact stored_updateSelection session _
      | readOnly => exact stored_updateSelection session _
      | readWrite => exact stored_updateSelection session _
      | tryCreate => exact stored_updateResponse session _
      | uidnext rcUidnext => exact stored_updateSelection session _
      | uidvalidity rcUidvalidity => exact stored_updateSelection session _
      | unseen rcFirstUnseen => exact stored_updateSelection session _
      | other atomName atomValue => exact stored_updateResponse session _
      | extension rcExtData => exact stored_updateResponse session _

theorem stored_mailboxData (session : Session) (mbData : MailboxData) :
    Stored session (mailboxDataStore session mbData) (ContReqOrRespData.respData (.mailboxData mbData)).describe := by
  cases mbData with
  | flags mbdFlags => exact stored_updateSelection session _
  | list mbdList => exact stored_updateResponse session _
  | lsub mbdLsub => exact stored_updateResponse session _
  | search mbdSearch => exact stored_updateResponse session _
  | status mbdStatus => exact stored_updateResponse session _
  | exists_ mbdExists => exact stored_updateSelection session _
  | recent mbdRecent => exact stored_updateSelection session _
  | extensionData mbdExtension => exact stored_updateResponse session _

theorem stored_messageData {session : Session} (isSome : session.imapResponseInfo.isSome = true) (msgData : MessageData) :
    Stored session (messageDataStore session msgData) (ContReqOrRespData.respData (.messageData msgData)).describe := by
  cases msgData with
  | expunge mdtNumber =>
      obtain ⟨info, found⟩ := Option.isSome_iff_exists.mp isSome
      rw [messageDataStore, found]
      exact ⟨rfl, rfl, rfl, rfl, fun _ => rfl⟩
  | fetch mdtNumber mdtMsgAtt => exact stored_updateResponse session _

theorem stored_data {session : Session} (isSome : session.imapResponseInfo.isSome = true) (data : ContReqOrRespData) :
    Stored session (contReqOrRespDataStore session data) data.describe := by
  cases data with
  | contReq => exact stored_refl session
  | respData data =>
      cases data with
      | condState rspCondState => exact stored_respText session rspCondState.rspText
      | condBye rspBye => exact stored_refl session
      | mailboxData rspMailboxData => exact stored_mailboxData session rspMailboxData
      | messageData rspMessageData => exact stored_messageData isSome rspMessageData
      | capabilityData rspCapabilityData => exact stored_updateCapability session rspCapabilityData
      | extensionData rspExtensionData => exact stored_updateResponse session _

theorem stored_list {session : Session} (isSome : session.imapResponseInfo.isSome = true) (list : List ContReqOrRespData) :
    Stored session (list.foldl contReqOrRespDataStore session)
      fun info => list.foldl (fun info data => data.describe info) info := by
  induction list generalizing session with
  | nil => exact stored_refl session
  | cons data list ih =>
      have first := stored_data isSome data
      exact first.trans (ih (first.response isSome))

theorem stored_done (session : Session) (done : ResponseDone) :
    Stored session (responseDoneStore session done) done.describe := by
  cases done with
  | tagged rspTag rspCondState => exact stored_respText session rspCondState.rspText
  | fatal rspBye => exact stored_respText session rspBye

/-- An answer is stored as the fold of its responses into the record. -/
theorem stored_response (session : Session) (response : Response) :
    Stored session (responseStore session response) response.describe := by
  have begin_ : Stored session { session with imapResponseInfo := some mailimapResponseInfoNew } id :=
    ⟨by rw [Option.map_id]; rfl, rfl, rfl, rfl, fun _ => rfl⟩
  have list := @stored_list { session with imapResponseInfo := some mailimapResponseInfoNew } rfl
    response.rspContReqOrRespDataList
  exact (begin_.trans list).trans (stored_done _ response.rspRespDone)

theorem stored_responses (session : Session) (responses : List Response) :
    (responses.foldl responseStore session).imapSelectionInfo =
      session.imapSelectionInfo.map fun info => responses.foldl (fun info response => response.describe info) info := by
  induction responses generalizing session with
  | nil => exact Option.map_id'.symm
  | cons response responses ih =>
      rw [List.foldl_cons, ih, (stored_response session response).selection, Option.map_map]
      rfl

inductive CountChange where
  | announced (number : UInt32)
  | expunged
  | vanished (uids : NumberSet)
  | unchanged
deriving Repr, DecidableEq

def ContReqOrRespData.change (data : ContReqOrRespData) : CountChange :=
  match data with
  | .respData (.mailboxData (.exists_ mbdExists)) => .announced mbdExists
  | .respData (.messageData (.expunge _)) => .expunged
  | .respData (.extensionData (.qresyncVanished vanished)) =>
      if vanished.qrEarlier then .unchanged else .vanished vanished.qrKnownUids
  | _ => .unchanged

/-- EXISTS sets the count, EXPUNGE takes one away and VANISHED as many as there are UIDs in its
set, of which `*` is the number `star`. -/
def CountChange.apply (star : Nat) (count : Int) (change : CountChange) : Int :=
  match change with
  | .announced number => number.toNat
  | .expunged => count - 1
  | .vanished uids => count - (setNumbers star uids).card
  | .unchanged => count

def countChanges (responses : List Response) : List CountChange :=
  (responses.flatMap Response.rspContReqOrRespDataList).map ContReqOrRespData.change

/-- What a sequence of responses amounts to: the number of messages that was announced last and
what was taken away since. -/
structure Tally where
  announced : UInt32
  expunged : Nat
  vanished : Nat
deriving Repr, DecidableEq

def Tally.add (star : Nat) (tally : Tally) (change : CountChange) : Tally :=
  match change with
  | .announced number => { announced := number, expunged := 0, vanished := 0 }
  | .expunged => { tally with expunged := tally.expunged + 1 }
  | .vanished uids => { tally with vanished := tally.vanished + (setNumbers star uids).card }
  | .unchanged => tally

def tallyOf (star : Nat) (count : UInt32) (responses : List Response) : Tally :=
  (countChanges responses).foldl (Tally.add star) { announced := count, expunged := 0, vanished := 0 }

def Tally.count (tally : Tally) : Int := (tally.announced.toNat : Int) - tally.expunged - tally.vanished

theorem Tally.add_count (star : Nat) (tally : Tally) (change : CountChange) :
    (tally.add star change).count = change.apply star tally.count := by
  cases change with
  | announced number => simp [Tally.add, Tally.count, CountChange.apply]
  | expunged =>
      simp only [Tally.add, Tally.count, CountChange.apply]
      push_cast
      omega
  | vanished uids =>
      simp only [Tally.add, Tally.count, CountChange.apply]
      push_cast
      omega
  | unchanged => rfl

theorem foldl_tally_count (star : Nat) (tally : Tally) (changes : List CountChange) :
    (changes.foldl (Tally.add star) tally).count = changes.foldl (CountChange.apply star) tally.count := by
  induction changes generalizing tally with
  | nil => rfl
  | cons change changes ih => rw [List.foldl_cons, ih, Tally.add_count, List.foldl_cons]

/-- The count of the record goes with EXISTS and EXPUNGE only. -/
def CountChange.store (selExists : UInt32) (change : CountChange) : UInt32 :=
  match change with
  | .announced number => number
  | .expunged => selExists - 1
  | .vanished _ => selExists
  | .unchanged => selExists

theorem RespText.describe_selExists (respText : RespText) (info : SelectionInfo) :
    (respText.describe info).selExists = info.selExists := by
  rw [RespText.describe]
  split <;> rfl

theorem ContReqOrRespData.describe_selExists (data : ContReqOrRespData) (info : SelectionInfo) :
    (data.describe info).selExists = data.change.store info.selExists := by
  cases data with
  | contReq => rfl
  | respData data =>
      cases data with
      | condState rspCondState => exact RespText.describe_selExists _ info
      | condBye rspBye => rfl
      | mailboxData rspMailboxData => cases rspMailboxData <;> rfl
      | messageData rspMessageData => cases rspMessageData <;> rfl
      | capabilityData rspCapabilityData => rfl
      | extensionData rspExtensionData =>
          cases rspExtensionData with
          | condstoreRespTextCode code => rfl
          | condstoreSearchData csSearchResult csModseqValue => rfl
          | qresyncVanished vanished =>
              simp only [ContReqOrRespData.describe, ContReqOrRespData.change]
              split_ifs <;> rfl
          | qresyncClosed => rfl
          | other extId extType => rfl

theorem ResponseDone.describe_selExists (done : ResponseDone) (info : SelectionInfo) :
    (done.describe info).selExists = info.selExists := by
  cases done with
  | tagged rspTag rspCondState => exact RespText.describe_selExists _ info
  | fatal rspBye => exact RespText.describe_selExists _ info

theorem foldl_describe_selExists (list : List ContReqOrRespData) (info : SelectionInfo) :
    (list.foldl (fun info data => data.describe info) info).selExists =
      (list.map ContReqOrRespData.change).foldl CountChange.store info.selExists := by
  induction list generalizing info with
  | nil => rfl
  | cons data list ih =>
      rw [List.foldl_cons, ih, ContReqOrRespData.describe_selExists, List.map_cons, List.foldl_cons]

theorem foldl_response_selExists (responses : List Response) (info : SelectionInfo) :
    (responses.foldl (fun info response => response.describe info) info).selExists =
      (countChanges responses).foldl CountChange.store info.selExists := by
  induction responses generalizing info with
  | nil => rfl
  | cons response responses ih =>
      rw [List.foldl_cons, ih, Response.describe, ResponseDone.describe_selExists, foldl_describe_selExists, countChanges,
        countChanges, List.flatMap_cons, List.map_append, List.foldl_append]

/-- The count of the record is what was announced less the number of EXPUNGE responses, in
numbers of 32 bits. -/
theorem foldl_store_tally (star : Nat) (tally : Tally) (changes : List CountChange) {selExists : UInt32}
    (counted : selExists = tally.announced - UInt32.ofNat tally.expunged) :
    changes.foldl CountChange.store selExists =
      (changes.foldl (Tally.add star) tally).announced - UInt32.ofNat (changes.foldl (Tally.add star) tally).expunged := by
  induction changes generalizing tally selExists with
  | nil => exact counted
  | cons change changes ih =>
      apply ih
      cases change with
      | announced number =>
          simp only [CountChange.store, Tally.add]
          exact (UInt32.sub_zero number).symm
      | expunged =>
          simp only [CountChange.store, Tally.add, counted, UInt32.ofNat_add]
          rw [sub_sub]
          rfl
      | vanished uids => exact counted
      | unchanged => exact counted

/-- The number of 32 bits is the count exactly when no UID has vanished and not more messages were
expunged than there were. -/
theorem Tally.stored_iff (tally : Tally) :
    ((tally.announced - UInt32.ofNat tally.expunged).toNat : Int) = tally.count ↔
      tally.expunged ≤ tally.announced.toNat ∧ tally.vanished = 0 := by
  have bound := tally.announced.toNat_lt
  rw [UInt32.toNat_sub, UInt32.toNat_ofNat', Tally.count]
  omega

def selExistsOf (session : Session) : Option Int :=
  session.imapSelectionInfo.map fun info => (info.selExists.toNat : Int)

/-- The count is right exactly when, since the last EXISTS, no VANISHED without EARLIER has named a
UID and no more messages were expunged than there were. -/
theorem responseStore_selExists {session : Session} {info : SelectionInfo}
    (selected : session.imapSelectionInfo = some info) (star : Nat) (responses : List Response) :
    selExistsOf (responses.foldl responseStore session) =
        some ((countChanges responses).foldl (CountChange.apply star) (info.selExists.toNat : Int)) ↔
      (tallyOf star info.selExists responses).expunged ≤ (tallyOf star info.selExists responses).announced.toNat ∧
        (tallyOf star info.selExists responses).vanished = 0 := by
  have started : ({ announced := info.selExists, expunged := 0, vanished := 0 } : Tally).count =
      (info.selExists.toNat : Int) := by simp [Tally.count]
  have stored := foldl_store_tally star { announced := info.selExists, expunged := 0, vanished := 0 }
    (countChanges responses) (UInt32.sub_zero info.selExists).symm
  rw [selExistsOf, stored_responses, selected, ← Tally.stored_iff, ← started, ← foldl_tally_count]
  simp only [Option.map_some, Option.some.injEq, foldl_response_selExists, stored]
  rfl

def answering (data : List ResponseData) : Response where
  rspContReqOrRespDataList := data.map .respData
  rspRespDone := .tagged (Data.asciiText "1") { rspType := .ok, rspText := { rspCode := none, rspText := [] } }

def selectedSession : Session :=
  { mailimapNew with imapState := .selected, imapSelectionInfo := some mailimapSelectionInfoNew }

theorem responseStore_selExists_expunge :
    selExistsOf ([answering [.mailboxData (.exists_ 3)], answering [.messageData (.expunge 2)]].foldl responseStore
        selectedSession) = some 2 ∧
      selExistsOf ([answering [.mailboxData (.exists_ 3)], answering [.messageData (.expunge 2)]].foldl responseStore
        selectedSession) =
          some ((countChanges [answering [.mailboxData (.exists_ 3)], answering [.messageData (.expunge 2)]]).foldl
            (CountChange.apply 1) ((mailimapSelectionInfoNew.selExists.toNat : Int))) :=
  ⟨by decide, (@responseStore_selExists selectedSession mailimapSelectionInfoNew rfl 1 _).mpr (by decide)⟩

/-- A UID that vanishes is still counted, and an EXPUNGE of an empty mailbox wraps. -/
theorem responseStore_selExists_vanished :
    (selExistsOf ([answering [.mailboxData (.exists_ 3)],
          answering [.extensionData (.qresyncVanished { qrEarlier := false, qrKnownUids := [⟨7, 7⟩] })]].foldl responseStore
        selectedSession) = some 3 ∧
      (countChanges [answering [.mailboxData (.exists_ 3)],
          answering [.extensionData (.qresyncVanished { qrEarlier := false, qrKnownUids := [⟨7, 7⟩] })]]).foldl
        (CountChange.apply 1) 0 = 2) ∧
    (selExistsOf ([answering [.messageData (.expunge 1)]].foldl responseStore selectedSession) = some 4294967295 ∧
      (countChanges [answering [.messageData (.expunge 1)]]).foldl (CountChange.apply 1) 0 = -1) := by
  decide

end Etpan.Imap
