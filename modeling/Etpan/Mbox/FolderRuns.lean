import Etpan.Mbox.Additional

namespace Etpan.Mbox

open Etpan.Data

/-! Whole runs of the operations on a folder, `low-level/mbox/mailmbox.c`. -/

/-- A call on a folder, or another program's change of the file, which is parsed again. -/
inductive FolderCall where
  | delete (uid : UInt32)
  | expunge
  | append (line : FromLine) (messages : List (List UInt8))
  | reread (file : List UInt8)

def FolderCall.result (folder : MailmboxFolder) : FolderCall → Except MailmboxError MailmboxFolder
  | .delete uid => mailmboxDeleteMsg folder uid
  | .expunge => mailmboxExpunge folder
  | .append line messages => mailmboxAppendMessageList folder line messages
  | .reread file => .ok (mailmboxParse { folder with mbMapping := file })

/-- A call that fails leaves the folder as it was. -/
def FolderCall.run (folder : MailmboxFolder) (call : FolderCall) : MailmboxFolder :=
  (call.result folder).toOption.getD folder

/-- The folder of `mailmbox_init` before it has mapped the file. -/
def mailmboxFolderNew (readOnly noUid : Bool) (defaultWrittenUid : UInt32) : MailmboxFolder where
  mbReadOnly := readOnly
  mbNoUid := noUid
  mbChanged := false
  mbDeletedCount := 0
  mbMapping := []
  mbWrittenUid := defaultWrittenUid
  mbMaxUid := 0
  mbHash := fun _ => none
  mbTab := []
  info := fun _ => ⟨⟨0, 0, 0, 0, 0, 0, 0, 0⟩, 0, 0, false, false⟩
  allocated := 0

/-! The counter is a `uint32_t`: it has a number for each message that waits for one. -/

def Parsing.Fits (parsing : Parsing) : Prop :=
  parsing.maxUid.toNat + parsing.folder.waiting parsing.folder.mbTab < 2 ^ 32

def wholeParsing (folder : MailmboxFolder) (file : List UInt8) : Parsing :=
  (messagesFrom 0 file).foldl Parsing.message (emptied { folder with mbMapping := file })

def moreParsing (folder : MailmboxFolder) (cur : Nat) : Parsing :=
  (messagesFrom cur (folder.mbMapping.drop cur)).foldl Parsing.message (additional folder cur)

def ExpungeFits (folder : MailmboxFolder) : Prop :=
  ∀ file, mailmboxExpungeToFileNoLock folder = .ok file → (wholeParsing folder file).Fits

def FolderCall.Fits (folder : MailmboxFolder) : FolderCall → Prop
  | .delete _ => True
  | .expunge => ExpungeFits folder
  | .append line messages => ExpungeFits folder ∧ ∀ expunged, mailmboxExpungeNoLock folder = .ok expunged →
      (moreParsing (mailmboxAppendMessageListNoLock expunged line messages) expunged.mbMapping.length).Fits
  | .reread file => (wholeParsing folder file).Fits

def RunFits : MailmboxFolder → List FolderCall → Prop
  | _, [] => True
  | folder, call :: calls => call.Fits folder ∧ RunFits (call.run folder) calls

section Steps

variable {folder : MailmboxFolder}

theorem mailmboxParse_reread {file : List UInt8} (fits : (wholeParsing folder file).Fits) :
    (mailmboxParse { folder with mbMapping := file }).Consistent :=
  ((emptied_messages { folder with mbMapping := file } (messagesFrom 0 file)).1.toValid.consistent fits).1

theorem mailmboxExpungeNoLock_consistent (consistent : folder.Consistent) (fits : ExpungeFits folder) {after : MailmboxFolder}
    (expunged : mailmboxExpungeNoLock folder = .ok after) : after.Consistent := by
  rw [mailmboxExpungeNoLock] at expunged
  split_ifs at expunged
  · cases expunged
    exact consistent
  · split at expunged
    · cases expunged
    · next file written =>
        cases expunged
        have parsed := mailmboxParse_reread (fits file written)
        exact ⟨parsed.nodup, parsed.below, parsed.indexed, parsed.hashed, parsed.nonzero, parsed.highest⟩

theorem mailmboxAppendMessageList_consistent (consistent : folder.Consistent) {line : FromLine} {messages : List (List UInt8)}
    (fits : FolderCall.Fits folder (.append line messages)) {after : MailmboxFolder}
    (appended : mailmboxAppendMessageList folder line messages = .ok after) : after.Consistent := by
  rw [mailmboxAppendMessageList] at appended
  split_ifs at appended
  split at appended
  · cases appended
  · next expunged result =>
      cases appended
      -- what is parsed is not in the table yet, so the counter of the written file does not matter
      have old := (mailmboxExpungeNoLock_consistent consistent fits.1 result).additional expunged.mbMapping.length
      have start : (additional (mailmboxAppendMessageListNoLock expunged line messages) expunged.mbMapping.length).Valid :=
        ⟨old.nodup, old.below, old.indexed, old.hashed, old.highest, old.waiting, old.firstIndex_le⟩
      exact ((start.messages _).consistent (fits.2 expunged result)).1

theorem FolderCall.run_consistent (consistent : folder.Consistent) {call : FolderCall} (fits : call.Fits folder) :
    (call.run folder).Consistent := by
  cases result : call.result folder with
  | error error =>
      rw [run, result]
      exact consistent
  | ok after =>
      rw [run, result]
      cases call with
      | delete uid => exact (mailmboxDeleteMsg_cases result).1.consistent consistent
      | expunge =>
          rw [FolderCall.result, mailmboxExpunge] at result
          split_ifs at result
          exact mailmboxExpungeNoLock_consistent consistent fits result
      | append line messages => exact mailmboxAppendMessageList_consistent consistent fits result
      | reread file =>
          cases result
          exact mailmboxParse_reread fits

theorem folderRun_consistent {calls : List FolderCall} (consistent : folder.Consistent) (fits : RunFits folder calls) :
    (calls.foldl FolderCall.run folder).Consistent := by
  induction calls generalizing folder with
  | nil => exact consistent
  | cons call calls ih => exact ih (call.run_consistent consistent fits.1) fits.2

theorem MailmboxFolder.Consistent.fetch_cases (consistent : folder.Consistent) (uid : UInt32) :
    (∃ info ∈ folder.infos, info.msgUid = uid ∧ mailmboxFetchMsg folder uid =
      if info.msgDeleted then .error .msgNotFound else .ok (writeFixedMessage (info.toMsgPlace.data folder.mbMapping) none)) ∨
    (∀ info ∈ folder.infos, info.msgUid ≠ uid) ∧ mailmboxFetchMsg folder uid = .error .msgNotFound := by
  cases known : folder.mbHash uid with
  | none =>
      refine .inr ⟨?_, by rw [mailmboxFetchMsg, known]⟩
      intro info member same
      obtain ⟨address, listed, rfl⟩ := List.mem_map.mp member
      rw [(consistent.hashed uid address).mpr ⟨listed, same⟩] at known
      cases known
  | some address =>
      obtain ⟨listed, same⟩ := (consistent.hashed uid address).mp known
      refine .inl ⟨_, List.mem_map_of_mem listed, same, ?_⟩
      rw [mailmboxFetchMsg, known]
      rfl

end Steps

/-- After every run every message has a UID of its own that the counter covers, and a UID fetches its message. -/
theorem folderRun_uids {readOnly noUid : Bool} {defaultWrittenUid : UInt32} {file : List UInt8} {calls : List FolderCall}
    (fits : RunFits (mailmboxFolderNew readOnly noUid defaultWrittenUid) (.reread file :: calls)) :
    let folder := calls.foldl FolderCall.run (mailmboxInit file readOnly noUid defaultWrittenUid)
    (folder.infos.map (·.msgUid)).Nodup ∧ (∀ info ∈ folder.infos, info.msgUid ≠ 0 ∧ info.msgUid ≤ folder.mbMaxUid) ∧
      ∀ uid, (∃ info ∈ folder.infos, info.msgUid = uid ∧ mailmboxFetchMsg folder uid =
          if info.msgDeleted then .error .msgNotFound else .ok (writeFixedMessage (info.toMsgPlace.data folder.mbMapping) none)) ∨
        (∀ info ∈ folder.infos, info.msgUid ≠ uid) ∧ mailmboxFetchMsg folder uid = .error .msgNotFound := by
  intro folder
  have consistent : folder.Consistent := folderRun_consistent (mailmboxParse_reread fits.1) fits.2
  refine ⟨consistent.uids_nodup, fun info member => ?_, consistent.fetch_cases⟩
  obtain ⟨address, listed, rfl⟩ := List.mem_map.mp member
  exact ⟨consistent.nonzero address listed, consistent.highest address listed⟩

/-- A message that gets the UID 1 is deleted under it, and a second file replaces the first. -/
theorem folderRun_uids_deleted :
    let folder := [FolderCall.delete 1, .reread (fromPrefix ++ [LF, LF, ascii 'b', LF, LF] ++ fromPrefix ++ [LF, LF, ascii 'd', LF])].foldl FolderCall.run
      (mailmboxInit (fromPrefix ++ [LF, LF, ascii 'b', LF]) false false 0)
    (folder.infos.map (·.msgUid)).Nodup := by
  have fits : RunFits (mailmboxFolderNew false false 0) [.reread (fromPrefix ++ [LF, LF, ascii 'b', LF]), .delete 1,
      .reread (fromPrefix ++ [LF, LF, ascii 'b', LF, LF] ++ fromPrefix ++ [LF, LF, ascii 'd', LF])] := by
    refine ⟨?_, trivial, ?_, trivial⟩
    · change _ < 2 ^ 32
      decide +kernel
    · change _ < 2 ^ 32
      decide +kernel
  exact (folderRun_uids fits).1

end Etpan.Mbox
