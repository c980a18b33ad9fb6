import Etpan.Imap.Session

namespace Etpan.Imap

/-! The UIDs that the commands of QRESYNC report as vanished. -/

def RespText.extensions (respText : RespText) : List ExtensionData :=
  match respText.rspCode with
  | some (.extension rcExtData) => [rcExtData]
  | _ => []

def ContReqOrRespData.extensions (data : ContReqOrRespData) : List ExtensionData :=
  match data with
  | .respData (.condState rspCondState) => rspCondState.rspText.extensions
  | .respData (.mailboxData (.extensionData mbdExtension)) => [mbdExtension]
  | .respData (.extensionData rspExtensionData) => [rspExtensionData]
  | _ => []

def ResponseDone.extensions (done : ResponseDone) : List ExtensionData :=
  match done with
  | .tagged _ rspCondState => rspCondState.rspText.extensions
  | .fatal rspBye => rspBye.extensions

def Response.extensions (response : Response) : List ExtensionData :=
  response.rspContReqOrRespDataList.flatMap ContReqOrRespData.extensions ++ response.rspRespDone.extensions

/-- A store that adds `added` to the extension data of the command. -/
def Extends (before after : Session) (added : List ExtensionData) : Prop :=
  ∀ info, before.imapResponseInfo = some info →
    ∃ info', after.imapResponseInfo = some info' ∧ info'.rspExtensionList = info.rspExtensionList ++ added

theorem Extends.trans {before middle after : Session} {first second : List ExtensionData}
    (one : Extends before middle first) (two : Extends middle after second) :
    Extends before after (first ++ second) := by
  intro info found
  obtain ⟨middleInfo, middleFound, list⟩ := one info found
  obtain ⟨afterInfo, afterFound, longer⟩ := two middleInfo middleFound
  exact ⟨afterInfo, afterFound, by rw [longer, list, List.append_assoc]⟩

theorem extends_same {before after : Session} (same : after.imapResponseInfo = before.imapResponseInfo) :
    Extends before after [] := by
  intro info found
  exact ⟨info, by rw [same, found], (List.append_nil _).symm⟩

theorem extends_updateResponse {session : Session} {update : ResponseInfo → ResponseInfo} {added : List ExtensionData}
    (adds : ∀ info, (update info).rspExtensionList = info.rspExtensionList ++ added) :
    Extends session (session.updateResponse update) added := by
  intro info found
  exact ⟨update info, by rw [Session.updateResponse, found]; rfl, adds info⟩

theorem extends_respText (session : Session) (respText : RespText) :
    Extends session (respTextStore session respText) respText.extensions := by
  obtain ⟨code, text⟩ := respText
  have unchanged : ∀ update : ResponseInfo → ResponseInfo,
      (∀ info, (update info).rspExtensionList = info.rspExtensionList) →
        Extends session (session.updateResponse update) [] := by
    intro update keeps
    exact extends_updateResponse fun info => by rw [keeps info, List.append_nil]
  cases code with
  | none => exact extends_same rfl
  | some code =>
      cases code with
      | alert => exact unchanged _ fun info => rfl
      | badcharset rcBadcharset => exact unchanged _ fun info => rfl
      | capabilityData rcCapData => exact extends_same rfl
      | parse => exact unchanged _ fun info => rfl
      | permanentflags rcPermFlags => exact extends_same rfl
      | readOnly => exact extends_same rfl
      | readWrite => exact extends_same rfl
      | tryCreate => exact unchanged _ fun info => rfl
      | uidnext rcUidnext => exact extends_same rfl
      | uidvalidity rcUidvalidity => exact extends_same rfl
      | unseen rcFirstUnseen => exact extends_same rfl
      | other atomName atomValue => exact unchanged _ fun info => rfl
      | extension rcExtData => exact extends_updateResponse fun info => rfl

theorem extends_mailboxData (session : Session) (mbData : MailboxData) :
    Extends session (mailboxDataStore session mbData) (ContReqOrRespData.respData (.mailboxData mbData)).extensions := by
  cases mbData with
  | flags mbdFlags => exact extends_same rfl
  | list mbdList => exact extends_updateResponse fun info => (List.append_nil _).symm
  | lsub mbdLsub => exact extends_updateResponse fun info => (List.append_nil _).symm
  | search mbdSearch => exact extends_updateResponse fun info => (List.append_nil _).symm
  | status mbdStatus => exact extends_updateResponse fun info => (List.append_nil _).symm
  | exists_ mbdExists => exact extends_same rfl
  | recent mbdRecent => exact extends_same rfl
  | extensionData mbdExtension => exact extends_updateResponse fun info => rfl

theorem extends_messageData (session : Session) (msgData : MessageData) :
    Extends session (messageDataStore session msgData) [] := by
  cases msgData with
  | expunge mdtNumber =>
      intro info found
      rw [messageDataStore, found]
      exact ⟨_, rfl, (List.append_nil _).symm⟩
  | fetch mdtNumber mdtMsgAtt => exact extends_updateResponse fun info => (List.append_nil _).symm

theorem extends_data (session : Session) (data : ContReqOrRespData) :
    Extends session (contReqOrRespDataStore session data) data.extensions := by
  cases data with
  | contReq => exact extends_same rfl
  | respData data =>
      cases data with
      | condState rspCondState => exact extends_respText session rspCondState.rspText
      | condBye rspBye => exact extends_same rfl
      | mailboxData rspMailboxData => exact extends_mailboxData session rspMailboxData
      | messageData rspMessageData => exact extends_messageData session rspMessageData
      | capabilityData rspCapabilityData => exact extends_same rfl
      | extensionData rspExtensionData => exact extends_updateResponse fun info => rfl

theorem extends_list (session : Session) (list : List ContReqOrRespData) :
    Extends session (list.foldl contReqOrRespDataStore session) (list.flatMap ContReqOrRespData.extensions) := by
  induction list generalizing session with
  | nil => exact extends_same rfl
  | cons data list ih => exact (extends_data session data).trans (ih _)

theorem extends_done (session : Session) (done : ResponseDone) :
    Extends session (responseDoneStore session done) done.extensions := by
  cases done with
  | tagged rspTag rspCondState => exact extends_respText session rspCondState.rspText
  | fatal rspBye => exact extends_respText session rspBye

theorem responseStore_extensions (session : Session) (response : Response) :
    ∃ info, (responseStore session response).imapResponseInfo = some info ∧
      info.rspExtensionList = response.extensions := by
  obtain ⟨info, found, list⟩ := ((extends_list { session with imapResponseInfo := some mailimapResponseInfoNew }
    response.rspContReqOrRespDataList).trans (extends_done _ response.rspRespDone)) mailimapResponseInfoNew rfl
  exact ⟨info, found, list⟩

/-! ### What is handed to the caller -/

def ExtensionData.vanished? : ExtensionData → Option Vanished
  | .qresyncVanished vanished => some vanished
  | _ => none

def Response.vanished (response : Response) : List Vanished := response.extensions.filterMap ExtensionData.vanished?

theorem getVanished_eq (info : ResponseInfo) :
    getVanished info = (info.rspExtensionList.filterMap ExtensionData.vanished?).head? := by
  rw [List.head?_filterMap]
  rfl

inductive QresyncCommand where
  | select
  | fetch
  | uidFetch
deriving Repr, DecidableEq

def QresyncCommand.run (command : QresyncCommand) (session : Session) (answer : Answer) : CommandResult QresyncResult :=
  match command with
  | .select => mailimapSelectQresync session answer
  | .fetch => mailimapFetchQresyncVanished session answer
  | .uidFetch => mailimapUidFetchQresyncVanished session answer

theorem mailimapParseResponse_ok {session after : Session} {parsed : Except ParseError Response} {response : Response}
    (answered : mailimapParseResponse session parsed = (.ok response, after)) :
    parsed = .ok response ∧ after = responseStore session response := by
  cases parsed with
  | error reason => cases answered
  | ok found =>
      simp only [mailimapParseResponse] at answered
      split at answered
      · cases answered
      · split_ifs at answered
        · cases answered
        · cases answered
        · cases answered
          exact ⟨rfl, rfl⟩

theorem qresyncResult_vanished (session : Session) (response : Response) :
    getVanished ((responseStore session response).imapResponseInfo.getD mailimapResponseInfoNew) = response.vanished.head? := by
  obtain ⟨info, found, list⟩ := responseStore_extensions session response
  rw [found, Option.getD_some, getVanished_eq, list]
  rfl

theorem mailimapSelectQresync_vanished {session : Session} {response : Response} {result : QresyncResult}
    (handed : (mailimapSelectQresync session (.line (.ok response))).value = some result) :
    result.vanished = response.vanished.head? := by
  rw [mailimapSelectQresync, selectCommand] at handed
  split_ifs at handed
  · cases handed
  · rcases answered : mailimapParseResponse
        { mailimapSendCurrentTag session with imapSelectionInfo := some mailimapSelectionInfoNew } (.ok response) with
      ⟨reason | found, after⟩
    · simp only [answered, selectAnswered] at handed
      cases handed
    · obtain ⟨same, rfl⟩ := mailimapParseResponse_ok answered
      cases same
      simp only [answered, selectAnswered] at handed
      split at handed
      · cases handed
        exact qresyncResult_vanished _ response
      · cases handed

theorem fetchQresyncCommand_vanished {failure : MailimapError} {session : Session} {response : Response}
    {result : QresyncResult} (handed : (fetchQresyncCommand failure session (.line (.ok response))).value = some result) :
    result.vanished = response.vanished.head? := by
  rw [fetchQresyncCommand] at handed
  split_ifs at handed
  · cases handed
  · rcases answered : mailimapParseResponse (mailimapSendCurrentTag session) (.ok response) with ⟨reason | found, after⟩
    · simp only [answered, fetchQresyncAnswered] at handed
      cases handed
    · obtain ⟨same, rfl⟩ := mailimapParseResponse_ok answered
      cases same
      simp only [answered, fetchQresyncAnswered] at handed
      split_ifs at handed
      · cases handed
      · cases handed
        exact qresyncResult_vanished _ response

theorem QresyncCommand.run_vanished {command : QresyncCommand} {session : Session} {response : Response}
    {result : QresyncResult} (handed : (command.run session (.line (.ok response))).value = some result) :
    result.vanished = response.vanished.head? := by
  cases command with
  | select => exact mailimapSelectQresync_vanished handed
  | fetch => exact fetchQresyncCommand_vanished handed
  | uidFetch => exact fetchQresyncCommand_vanished handed

/-- The UIDs of some VANISHED responses, `*` being `star`. -/
def vanishedUids (star : Nat) (responses : List Vanished) : Finset Nat :=
  setNumbers star (responses.flatMap Vanished.qrKnownUids)

theorem mem_vanishedUids {star uid : Nat} {responses : List Vanished} :
    uid ∈ vanishedUids star responses ↔ ∃ response ∈ responses, uid ∈ setNumbers star response.qrKnownUids := by
  simp only [vanishedUids, setNumbers, Finset.mem_biUnion, List.mem_toFinset, List.mem_flatMap]
  constructor
  · rintro ⟨item, ⟨response, member, inSet⟩, inItem⟩
    exact ⟨response, member, item, inSet, inItem⟩
  · rintro ⟨response, member, item, inSet, inItem⟩
    exact ⟨item, ⟨response, member, inSet⟩, inItem⟩

structure ReportsVanished (star : Nat) (reported : Option Vanished) (responses : List Vanished) : Prop where
  null : reported = none ↔ responses = []
  uids : vanishedUids star reported.toList = vanishedUids star responses

/-- The UIDs of an answer are all reported exactly when those of its first VANISHED response are
all there are. -/
theorem qresyncCommand_reportsVanished {command : QresyncCommand} {session : Session} {response : Response}
    {result : QresyncResult} (handed : (command.run session (.line (.ok response))).value = some result) (star : Nat) :
    ReportsVanished star result.vanished response.vanished ↔
      ∀ first rest, response.vanished = first :: rest →
        ∀ later ∈ rest, setNumbers star later.qrKnownUids ⊆ setNumbers star first.qrKnownUids := by
  rw [QresyncCommand.run_vanished handed]
  cases response.vanished with
  | nil =>
      refine iff_of_true ⟨by simp, rfl⟩ ?_
      intro first rest empty
      cases empty
  | cons first rest =>
      have single : ∀ uid, uid ∈ vanishedUids star [first] ↔ uid ∈ setNumbers star first.qrKnownUids := by
        intro uid
        simp [mem_vanishedUids]
      constructor
      · intro reports head tail same later member uid inLater
        cases same
        have inAll : uid ∈ vanishedUids star (first :: rest) :=
          mem_vanishedUids.mpr ⟨later, List.mem_cons_of_mem _ member, inLater⟩
        rw [← reports.uids] at inAll
        exact (single uid).mp inAll
      · intro covered
        refine ⟨by simp, ?_⟩
        ext uid
        change uid ∈ vanishedUids star [first] ↔ _
        rw [single, mem_vanishedUids]
        constructor
        · intro inFirst
          exact ⟨first, List.mem_cons_self, inFirst⟩
        · rintro ⟨other, member, inOther⟩
          rcases List.mem_cons.mp member with rfl | isLater
          · exact inOther
          · exact covered first rest rfl other isLater inOther

def vanishing (sets : List NumberSet) : Response :=
  answering (sets.map fun set => .extensionData (.qresyncVanished { qrEarlier := true, qrKnownUids := set }))

theorem responseStore_tagStr (session : Session) (response : Response) :
    (responseStore session response).tagStr = session.tagStr := by
  have stored := stored_response session response
  rw [Session.tagStr, Session.tagStr, stored.tag, stored.workaround]

theorem mailimapParseResponse_answering {session : Session} (tag : session.tagStr = Data.asciiText "1")
    (data : List ResponseData) :
    mailimapParseResponse session (.ok (answering data)) =
      (.ok (answering data), responseStore session (answering data)) := by
  have same : (responseStore session (answering data)).tagStr = Data.asciiText "1" := by
    rw [responseStore_tagStr, tag]
  simp only [mailimapParseResponse, same]
  rfl

def authenticatedSession : Session := { mailimapNew with imapState := .authenticated }

theorem tagStr_one {session : Session} (first : session.imapTag = 1) (plain : session.is163WorkaroundEnabled = false) :
    session.tagStr = Data.asciiText "1" := by
  rw [Session.tagStr, first, plain, Data.decimal]
  rfl

/-- One VANISHED response is reported, with all its intervals. -/
theorem qresyncCommand_reportsVanished_one :
    ReportsVanished 9 (some { qrEarlier := true, qrKnownUids := [⟨1, 3⟩, ⟨7, 7⟩] })
      (vanishing [[⟨1, 3⟩, ⟨7, 7⟩]]).vanished := by
  have handed : (QresyncCommand.select.run authenticatedSession (.line (.ok (vanishing [[⟨1, 3⟩, ⟨7, 7⟩]])))).value =
      some { fetchResult := some [], vanished := some { qrEarlier := true, qrKnownUids := [⟨1, 3⟩, ⟨7, 7⟩] },
             modSequenceValue := 0 } := by
    simp only [QresyncCommand.run, mailimapSelectQresync, selectCommand, vanishing]
    rw [if_neg (by decide), mailimapParseResponse_answering (tagStr_one rfl rfl)]
    rfl
  refine (qresyncCommand_reportsVanished handed 9).mpr ?_
  intro first rest same later member
  have alone : rest = [] := (List.cons.inj same).2.symm
  rw [alone] at member
  cases member

/-- Of two VANISHED responses the second is lost. -/
theorem mailimapSelectQresync_losesVanished :
    (∃ result, (mailimapSelectQresync authenticatedSession (.line (.ok (vanishing [[⟨1, 3⟩], [⟨7, 7⟩]])))).value = some result ∧
      result.vanished = some { qrEarlier := true, qrKnownUids := [⟨1, 3⟩] }) ∧
    ¬ ReportsVanished 9 (some { qrEarlier := true, qrKnownUids := [⟨1, 3⟩] }) (vanishing [[⟨1, 3⟩], [⟨7, 7⟩]]).vanished := by
  constructor
  · simp only [mailimapSelectQresync, selectCommand, vanishing]
    rw [if_neg (by decide), mailimapParseResponse_answering (tagStr_one rfl rfl)]
    exact ⟨_, rfl, rfl⟩
  · intro reports
    have differs := reports.uids
    revert differs
    decide

end Etpan.Imap
