import Etpan.Mbox.Numbering
import Etpan.Mbox.Operations
import Etpan.Mbox.Additional

namespace Etpan.Mbox

open Etpan.Data

/-! Messages that are copied from one folder to another. -/

/-- The message as it stands in the file. -/
def mailmboxFetchMsgNoLock (folder : MailmboxFolder) (num : UInt32) : Except MailmboxError (List UInt8) :=
  match folder.mbHash num with
  | none => .error .msgNotFound
  | some address =>
      let info := folder.info address
      if info.msgDeleted then .error .msgNotFound else .ok (folder.data info.toMsgPlace)

def mailmboxAppendMessage (folder : MailmboxFolder) (line : FromLine) (data : List UInt8) : Except MailmboxError MailmboxFolder :=
  mailmboxAppendMessageList folder line [data]

/-- The infos for `mailmbox_append_message_list`, one for each UID. -/
def fetchInfos (srcFolder : MailmboxFolder) : List UInt32 → Except MailmboxError (List (List UInt8))
  | [] => .ok []
  | uid :: uids =>
      match mailmboxFetchMsgNoLock srcFolder uid with
      | .error error => .error error
      | .ok data => (fetchInfos srcFolder uids).map (data :: ·)

def mailmboxCopyMsgList (destFolder srcFolder : MailmboxFolder) (line : FromLine) (tab : List UInt32) : Except MailmboxError MailmboxFolder :=
  match fetchInfos srcFolder tab with
  | .error error => .error error
  | .ok appendTab => mailmboxAppendMessageList destFolder line appendTab

/-- The UID is allocated for the table, but it is not put into it. -/
def mailmboxCopyMsg (destFolder srcFolder : MailmboxFolder) (line : FromLine) (_uid : UInt32) : Except MailmboxError MailmboxFolder :=
  mailmboxCopyMsgList destFolder srcFolder line []

theorem mailmboxParseAdditionnal_sameFolder (folder : MailmboxFolder) (cur : Nat) :
    SameFolder folder (mailmboxParseAdditionnal folder cur) := by
  have start : SameFolder folder (folder.removeStale cur).reindex := ⟨rfl, rfl, rfl, rfl⟩
  rw [mailmboxParseAdditionnal_eq]
  exact (start.trans (messages_sameFolder ⟨(folder.removeStale cur).reindex, _, _⟩ _)).trans (number_sameFolder _)

theorem resized_length (size : Nat) (bytes : List UInt8) : (resized size bytes).length = size := by
  rw [resized, List.length_take, List.length_append, List.length_replicate]
  omega

/-- The length of the file in the end: the messages come behind the file that was there, and behind its line ends. -/
theorem mailmboxAppendMessageList_length {folder after : MailmboxFolder} {line : FromLine} {messages : List (List UInt8)}
    (appended : mailmboxAppendMessageList folder line messages = .ok after) :
    ∃ expunged, mailmboxExpungeNoLock folder = .ok expunged ∧ after.mbMapping.length =
      expunged.mbMapping.length + (if expunged.mbMapping = [] then 0 else 2 - crlfCount expunged.mbMapping) +
        appendedSize expunged.mbNoUid line expunged.mbMaxUid messages := by
  rw [mailmboxAppendMessageList] at appended
  split_ifs at appended
  split at appended
  · cases appended
  next expunged isExpunged =>
  cases appended
  refine ⟨expunged, isExpunged, ?_⟩
  rw [(mailmboxParseAdditionnal_sameFolder _ _).mapping, mailmboxAppendMessageListNoLock, resized_length]

theorem appendedSize_pos (noUid : Bool) (line : FromLine) (maxUid : UInt32) (message : List UInt8) :
    0 < appendedSize noUid line maxUid [message] := by
  rw [appendedSize]
  omega

/-- A call without messages never leaves the folder as a call with one does. -/
theorem mailmboxAppendMessageList_ne {folder after : MailmboxFolder} {line line' : FromLine} {message : List UInt8}
    (nothing : mailmboxAppendMessageList folder line [] = .ok after) : mailmboxAppendMessageList folder line' [message] ≠ .ok after := by
  intro appended
  obtain ⟨expunged, isExpunged, without⟩ := mailmboxAppendMessageList_length nothing
  obtain ⟨expunged', isExpunged', withOne⟩ := mailmboxAppendMessageList_length appended
  rw [isExpunged] at isExpunged'
  cases isExpunged'
  rw [without, appendedSize] at withOne
  have positive := appendedSize_pos expunged.mbNoUid line' expunged.mbMaxUid message
  omega

theorem mailmboxFetchMsg_noLock {folder : MailmboxFolder} {uid : UInt32} {bytes : List UInt8} (fetched : mailmboxFetchMsg folder uid = .ok bytes) :
    ∃ data, mailmboxFetchMsgNoLock folder uid = .ok data ∧ bytes = writeFixedMessage data none := by
  rw [mailmboxFetchMsg] at fetched
  cases known : folder.mbHash uid with
  | none =>
      rw [known] at fetched
      cases fetched
  | some address =>
      rw [known] at fetched
      dsimp only at fetched
      split_ifs at fetched with deleted
      have isData : mailmboxFetchMsgNoLock folder uid = .ok (folder.data (folder.info address).toMsgPlace) := by
        simp only [mailmboxFetchMsgNoLock, known, if_neg deleted]
      exact ⟨_, isData, (Except.ok.inj fetched).symm⟩

def copyEach (destFolder srcFolder : MailmboxFolder) (line : FromLine) : List UInt32 → Except MailmboxError MailmboxFolder
  | [] => .ok destFolder
  | uid :: uids =>
      match mailmboxCopyMsg destFolder srcFolder line uid with
      | .error error => .error error
      | .ok destFolder => copyEach destFolder srcFolder line uids

/-- A copy is what appending the fetched message gives, and the copy of a list is what copying its messages gives. -/
structure CopiesAsAppends (destFolder srcFolder : MailmboxFolder) : Prop where
  single : ∀ line uid bytes after, mailmboxFetchMsg srcFolder uid = .ok bytes → mailmboxCopyMsg destFolder srcFolder line uid = .ok after →
    mailmboxAppendMessage destFolder line bytes = .ok after
  list : ∀ line uids, mailmboxCopyMsgList destFolder srcFolder line uids = copyEach destFolder srcFolder line uids

theorem copyEach_singleton (destFolder srcFolder : MailmboxFolder) (line : FromLine) (uid : UInt32) :
    copyEach destFolder srcFolder line [uid] = mailmboxCopyMsg destFolder srcFolder line uid := by
  rw [copyEach]
  split
  · next failed => exact failed.symm
  · next copied => exact copied.symm

theorem not_copiesAsAppends (destFolder srcFolder : MailmboxFolder) : ¬ CopiesAsAppends destFolder srcFolder := by
  intro copies
  obtain ⟨line⟩ : Nonempty FromLine := ⟨⟨[], List.not_mem_nil⟩⟩
  have nothing : mailmboxAppendMessageList destFolder line [] = .ok destFolder := copies.list line []
  have asList := copies.list line [0]
  rw [copyEach_singleton, mailmboxCopyMsgList, fetchInfos] at asList
  cases fetched : mailmboxFetchMsgNoLock srcFolder 0 with
  | error error =>
      rw [fetched] at asList
      have copied : mailmboxCopyMsg destFolder srcFolder line 0 = .ok destFolder := nothing
      rw [copied] at asList
      cases asList
  | ok data =>
      rw [fetched] at asList
      exact mailmboxAppendMessageList_ne nothing (asList.trans nothing)

/-- No folder keeps the rule for its copies. A copy of a message that is there is neither what appending the fetched
message gives nor what copying the list of this one message gives. -/
theorem mailmboxCopyMsg_never (destFolder srcFolder : MailmboxFolder) :
    ¬ CopiesAsAppends destFolder srcFolder ∧
      ∀ line line' uid bytes after, mailmboxFetchMsg srcFolder uid = .ok bytes → mailmboxCopyMsg destFolder srcFolder line uid = .ok after →
        mailmboxAppendMessage destFolder line' bytes ≠ .ok after ∧ mailmboxCopyMsgList destFolder srcFolder line' [uid] ≠ .ok after := by
  refine ⟨not_copiesAsAppends destFolder srcFolder, fun line line' uid bytes after present copied => ?_⟩
  have nothing : mailmboxAppendMessageList destFolder line [] = .ok after := copied
  obtain ⟨data, isData, -⟩ := mailmboxFetchMsg_noLock present
  refine ⟨mailmboxAppendMessageList_ne nothing, ?_⟩
  rw [mailmboxCopyMsgList, fetchInfos, isData]
  exact mailmboxAppendMessageList_ne nothing

def sourceFolder : MailmboxFolder := mailmboxInit (fromPrefix ++ [LF, ascii 'K', ascii ':', LF, LF, ascii 'a', LF, LF]) false true 0

def targetFile : List UInt8 := fromPrefix ++ [LF, ascii 'Z', ascii ':', LF, LF]

def targetFolder : MailmboxFolder := mailmboxInit targetFile false true 0

def dateless : FromLine := ⟨[], List.not_mem_nil⟩

theorem mailmboxFetchMsg_source : mailmboxFetchMsg sourceFolder 1 = .ok [ascii 'K', ascii ':', LF, LF, ascii 'a', LF] := by
  decide +kernel

/-- The copy says that all went well, and the file is as it was. -/
theorem mailmboxCopyMsg_target :
    ∃ after, mailmboxCopyMsg targetFolder sourceFolder dateless 1 = .ok after ∧ after.mbMapping = targetFile := by
  have copied : (mailmboxCopyMsg targetFolder sourceFolder dateless 1).map (·.mbMapping) = .ok targetFile := by
    decide +kernel
  cases result : mailmboxCopyMsg targetFolder sourceFolder dateless 1 with
  | error error =>
      rw [result] at copied
      cases copied
  | ok after =>
      rw [result] at copied
      exact ⟨after, rfl, Except.ok.inj copied⟩

theorem mailmboxCopyMsg_drops : ¬ CopiesAsAppends targetFolder sourceFolder := by
  intro copies
  obtain ⟨after, copied, same⟩ := mailmboxCopyMsg_target
  have appended := copies.single dateless 1 _ after mailmboxFetchMsg_source copied
  have longer : (mailmboxAppendMessage targetFolder dateless [ascii 'K', ascii ':', LF, LF, ascii 'a', LF]).map (·.mbMapping) ≠ .ok targetFile := by
    decide +kernel
  rw [appended] at longer
  exact longer (congrArg Except.ok same)

theorem mailmboxCopyMsg_never_target :
    ¬ CopiesAsAppends targetFolder sourceFolder ∧ ∃ after, mailmboxCopyMsg targetFolder sourceFolder dateless 1 = .ok after ∧
      mailmboxAppendMessage targetFolder dateless [ascii 'K', ascii ':', LF, LF, ascii 'a', LF] ≠ .ok after := by
  obtain ⟨never, each⟩ := mailmboxCopyMsg_never targetFolder sourceFolder
  obtain ⟨after, copied, -⟩ := mailmboxCopyMsg_target
  exact ⟨never, after, copied, (each dateless dateless 1 _ after mailmboxFetchMsg_source copied).1⟩

/-! Where the messages of a folder are in its file, over all operations. -/

structure PlaceFits (length : Nat) (place : MsgPlace) : Prop where
  headers : place.msgHeaders = place.msgStart + place.msgStartLen
  front : place.msgStartLen + place.msgHeadersLen ≤ place.msgSize
  behind : place.msgStart + place.msgSize + place.msgPadding ≤ length
  nonempty : 0 < place.msgSize + place.msgPadding

theorem PlaceFits.mono {length length' : Nat} {place : MsgPlace} (fits : PlaceFits length place) (le : length ≤ length') :
    PlaceFits length' place :=
  ⟨fits.headers, fits.front, fits.behind.trans le, fits.nonempty⟩

theorem messagesFrom_fits {before rest : List UInt8} {message : MsgPlace × UInt32} (member : message ∈ messagesFrom before.length rest) :
    PlaceFits (before ++ rest).length message.1 := by
  obtain ⟨early, behind, rfl, nonempty, rfl⟩ := messagesFrom_mem member
  have cuts := singleParse_cuts behind
  have progress := cuts.progress nonempty
  have headers_le := cuts.headersLen_le
  obtain ⟨header, content, padding, more, -, body_eq, fin_eq, next_eq, -⟩ := cuts.split
  refine ⟨rfl, ?_, ?_, ?_⟩
  · change (singleParse behind).startLen + (singleParse behind).headersLen ≤ (singleParse behind).fin
    omega
  · change before.length + early.length + (singleParse behind).fin + ((singleParse behind).next - (singleParse behind).fin) ≤ _
    rw [List.length_append, List.length_append]
    omega
  · change 0 < (singleParse behind).fin + ((singleParse behind).next - (singleParse behind).fin)
    omega

def TableFits (length : Nat) (folder : MailmboxFolder) : Prop := ∀ address ∈ folder.mbTab, PlaceFits length (folder.info address).toMsgPlace

def MailmboxFolder.Placed (folder : MailmboxFolder) : Prop := TableFits folder.mbMapping.length folder

section Table

variable {length : Nat} {folder : MailmboxFolder}

theorem TableFits.of_places {after : MailmboxFolder} (fits : TableFits length folder) (tab : ∀ address ∈ after.mbTab, address ∈ folder.mbTab)
    (places : ∀ address, (after.info address).toMsgPlace = (folder.info address).toMsgPlace) : TableFits length after := by
  intro address member
  rw [places]
  exact fits address (tab address member)

theorem TableFits.infoSet_same (fits : TableFits length folder) {address : Nat} {info : MailmboxMsgInfo}
    (same : info.toMsgPlace = (folder.info address).toMsgPlace) : TableFits length (folder.infoSet address info) := by
  refine fits.of_places (fun _ member => member) fun other => ?_
  rw [MailmboxFolder.infoSet]
  dsimp only
  by_cases own : other = address
  · rw [own, Function.update_self, same]
  · rw [Function.update_of_ne own]

theorem TableFits.infoSet (fits : TableFits length folder) {address : Nat} {info : MailmboxMsgInfo} (place : PlaceFits length info.toMsgPlace) :
    TableFits length (folder.infoSet address info) := by
  intro other member
  rw [MailmboxFolder.infoSet]
  dsimp only
  by_cases own : other = address
  · rw [own, Function.update_self]
    exact place
  · rw [Function.update_of_ne own]
    exact fits other member

theorem TableFits.addInfo (fits : TableFits length folder) {place : MsgPlace} (placeFits : PlaceFits length place) (uid : UInt32) :
    TableFits length (folder.addInfo place uid) := by
  intro address member
  rw [MailmboxFolder.addInfo, MailmboxFolder.infoSet]
  dsimp only
  by_cases own : address = folder.allocated
  · rw [own, Function.update_self]
    exact placeFits
  · rw [Function.update_of_ne own]
    rcases List.mem_append.mp member with earlier | last
    · exact fits address earlier
    · exact absurd (List.mem_singleton.mp last) own

theorem TableFits.message {parsing : Parsing} (fits : TableFits length parsing.folder) {found : MsgPlace × UInt32} (place : PlaceFits length found.1) :
    TableFits length (parsing.message found).folder := by
  have claimed : TableFits length (parsing.claimUid found.2).1.folder := by
    rw [Parsing.claimUid]
    split
    · exact fits
    · next address _ =>
      have released : TableFits length (parsing.folder.hashSet found.2 none) := fits
      dsimp only
      split_ifs
      · exact fits
      · exact @TableFits.infoSet_same length _ released address _ rfl
  change TableFits length (mailmboxMsgInfoUpdate _ _ _)
  rw [mailmboxMsgInfoUpdate]
  split
  · split_ifs
    · exact claimed.addInfo place _
    · exact (claimed.addInfo place _).of_places (fun _ member => member) fun _ => rfl
  · exact claimed.infoSet place

theorem TableFits.messages {parsing : Parsing} (fits : TableFits length parsing.folder) {messages : List (MsgPlace × UInt32)}
    (places : ∀ message ∈ messages, PlaceFits length message.1) : TableFits length (messages.foldl Parsing.message parsing).folder := by
  induction messages generalizing parsing with
  | nil => exact fits
  | cons message messages ih =>
      exact ih (fits.message (places message List.mem_cons_self)) fun other member => places other (List.mem_cons_of_mem _ member)

theorem TableFits.attributeUids (addresses : List Nat) {numbered : MailmboxFolder × UInt32} (fits : TableFits length numbered.1) :
    TableFits length (addresses.foldl attributeUid numbered).1 := by
  induction addresses generalizing numbered with
  | nil => exact fits
  | cons address addresses ih =>
      refine ih ?_
      rw [attributeUid]
      by_cases named : (numbered.1.info address).msgUid ≠ 0
      · simp only [if_pos named]
        exact fits
      · simp only [if_neg named]
        exact @TableFits.infoSet_same length numbered.1 fits address _ rfl

/-- The messages that stay in the table, and those that are found behind them. -/
theorem mailmboxParseAdditionnal_fits {cur : Nat} (fits : TableFits folder.mbMapping.length folder) (within : cur ≤ folder.mbMapping.length) :
    (mailmboxParseAdditionnal folder cur).Placed := by
  have start : TableFits folder.mbMapping.length (folder.removeStale cur).reindex := by
    refine fits.of_places (fun address member => List.mem_of_mem_filter member) fun address => ?_
    rw [MailmboxFolder.reindex]
    dsimp only
    split_ifs
    · rfl
    · rfl
  have found : ∀ message ∈ messagesFrom cur (folder.mbMapping.drop cur), PlaceFits folder.mbMapping.length message.1 := by
    intro message member
    have front : (folder.mbMapping.take cur).length = cur := by rw [List.length_take, Nat.min_eq_left within]
    conv at member => rw [← front]
    have place := messagesFrom_fits member
    rwa [front, List.take_append_drop] at place
  have parsed : TableFits folder.mbMapping.length
      ((messagesFrom cur (folder.mbMapping.drop cur)).foldl Parsing.message (additional folder cur)).folder :=
    @TableFits.messages folder.mbMapping.length (additional folder cur) start _ found
  rw [MailmboxFolder.Placed, (mailmboxParseAdditionnal_sameFolder folder cur).mapping]
  exact TableFits.attributeUids _ parsed

theorem mailmboxParse_fits (folder : MailmboxFolder) : (mailmboxParse folder).Placed := by
  have empty : TableFits (flushUid folder).mbMapping.length (flushUid folder) := fun address member => absurd member List.not_mem_nil
  exact mailmboxParseAdditionnal_fits empty (Nat.zero_le _)

end Table

/-- The folders that come out of the operations. A folder is parsed when it is opened, and whenever its file has changed. -/
inductive Reached : MailmboxFolder → Prop
  | parsed (folder) : Reached (mailmboxParse folder)
  | deleted {folder uid after} (reached : Reached folder) (isDeleted : mailmboxDeleteMsg folder uid = .ok after) : Reached after
  | expunged {folder after} (reached : Reached folder) (isExpunged : mailmboxExpungeNoLock folder = .ok after) : Reached after
  | appended {folder line messages after} (reached : Reached folder)
      (isAppended : mailmboxAppendMessageList folder line messages = .ok after) : Reached after

theorem Placed.deleted {folder after : MailmboxFolder} {uid : UInt32} (placed : folder.Placed) (isDeleted : mailmboxDeleteMsg folder uid = .ok after) :
    after.Placed := by
  obtain ⟨same, -⟩ := mailmboxDeleteMsg_cases isDeleted
  rw [MailmboxFolder.Placed, same.mapping]
  refine placed.of_places (fun address member => same.tab ▸ member) fun address => ?_
  rw [same.info address]

theorem Placed.expunged {folder after : MailmboxFolder} (placed : folder.Placed) (isExpunged : mailmboxExpungeNoLock folder = .ok after) :
    after.Placed := by
  rw [mailmboxExpungeNoLock] at isExpunged
  split_ifs at isExpunged
  · cases isExpunged
    exact placed
  · split at isExpunged
    · cases isExpunged
    next file _ =>
    cases isExpunged
    exact mailmboxParse_fits { folder with mbMapping := file }

theorem Placed.appended {folder after : MailmboxFolder} {line : FromLine} {messages : List (List UInt8)} (placed : folder.Placed)
    (isAppended : mailmboxAppendMessageList folder line messages = .ok after) : after.Placed := by
  rw [mailmboxAppendMessageList] at isAppended
  split_ifs at isAppended
  split at isAppended
  · cases isAppended
  next expunged isExpunged =>
  cases isAppended
  have longer : expunged.mbMapping.length ≤ (mailmboxAppendMessageListNoLock expunged line messages).mbMapping.length := by
    rw [mailmboxAppendMessageListNoLock, resized_length]
    omega
  have fits : TableFits (mailmboxAppendMessageListNoLock expunged line messages).mbMapping.length
      (mailmboxAppendMessageListNoLock expunged line messages) :=
    fun address member => (Placed.expunged placed isExpunged address member).mono longer
  exact mailmboxParseAdditionnal_fits fits longer

theorem Reached.placed {folder : MailmboxFolder} (reached : Reached folder) : folder.Placed := by
  induction reached with
  | parsed folder => exact mailmboxParse_fits folder
  | deleted _ isDeleted ih => exact Placed.deleted ih isDeleted
  | expunged _ isExpunged ih => exact Placed.expunged ih isExpunged
  | appended _ isAppended ih => exact Placed.appended ih isAppended

end Etpan.Mbox
