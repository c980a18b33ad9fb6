import Etpan.Mbox.Numbering
import Etpan.Mbox.Operations
import Etpan.Mbox.Regions

namespace Etpan.Mbox

open Etpan.Data

/-! How the messages of a parsed folder cover its file. -/

theorem numberInfos_places (maxUid : UInt32) (infos : List MailmboxMsgInfo) :
    (numberInfos maxUid infos).map (·.toMsgPlace) = infos.map (·.toMsgPlace) := by
  induction infos generalizing maxUid with
  | nil => rfl
  | cons info infos ih =>
      rw [numberInfos]
      split_ifs <;> simp [ih]

theorem freshInfos_places (infos : List MailmboxMsgInfo) (messages : List (MsgPlace × UInt32)) :
    (freshInfos infos messages).map (·.toMsgPlace) = infos.map (·.toMsgPlace) ++ messages.map (·.1) := by
  induction messages generalizing infos with
  | nil => simp [freshInfos]
  | cons found messages ih =>
      have continued : freshInfos infos (found :: messages) =
          freshInfos (infos ++ [freshInfo infos found]) messages := rfl
      rw [continued, ih]
      simp [freshInfo, mailmboxMsgInfoNew]

theorem mailmboxParse_places (folder : MailmboxFolder) :
    (mailmboxParse folder).infos.map (·.toMsgPlace) = (messagesFrom 0 folder.mbMapping).map (·.1) := by
  rw [(mailmboxParse_parsed folder).infos, numberInfos_places, fileInfos, freshInfos_places]
  rfl

def MsgPlace.next (place : MsgPlace) : Nat := place.msgStart + place.msgSize + place.msgPadding

def Chained : Nat → List MsgPlace → Nat → Prop
  | cur, [], last => cur = last
  | cur, place :: places, last => place.msgStart = cur ∧ Chained place.next places last

def MsgPlace.Ordered (place : MsgPlace) : Prop :=
  place.msgStart ≤ place.msgHeaders ∧ place.msgHeaders ≤ place.msgBody ∧
    place.msgBody ≤ place.msgStart + place.msgSize

def MsgPlace.padding (file : List UInt8) (place : MsgPlace) : List UInt8 :=
  (file.drop (place.msgStart + place.msgSize)).take place.msgPadding

structure Tiling (file : List UInt8) (places : List MsgPlace) : Prop where
  chained : Chained 0 places file.length
  ordered : ∀ place ∈ places, place.Ordered
  padded : ∀ place ∈ places, Breaks (place.padding file)

theorem SingleParse.Cuts.place_next {found : SingleParse} {rest : List UInt8} (cuts : found.Cuts rest) (cur : Nat) :
    (found.place cur).next = cur + found.next := by
  obtain ⟨header, content, padding, more, -, -, fin_eq, next_eq, -⟩ := cuts.split
  change cur + found.fin + (found.next - found.fin) = cur + found.next
  omega

theorem SingleParse.Cuts.ordered {found : SingleParse} {rest : List UInt8} (cuts : found.Cuts rest) (cur : Nat) :
    (found.place cur).Ordered := by
  obtain ⟨header, content, padding, more, -, body_eq, fin_eq, -, -⟩ := cuts.split
  have startLen_le := cuts.startLen_le
  refine ⟨Nat.le_add_right _ _, Nat.add_le_add_left startLen_le cur, ?_⟩
  change cur + found.body ≤ cur + found.fin
  omega

/-- The padding of a message has content in it if and only if the file ends on a line or a
separator that the scan has not finished. -/
theorem SingleParse.Cuts.padding {found : SingleParse} {rest : List UInt8} (cuts : found.Cuts rest)
    (before : List UInt8) :
    Breaks ((found.place before.length).padding (before ++ rest)) ↔
      cutShort .firstLF (rest.drop found.body) = false := by
  obtain ⟨header, content, padding, more, rest_eq, body_eq, fin_eq, next_eq, kind⟩ := cuts.split
  have padding_eq : (found.place before.length).padding (before ++ rest) = padding := by
    change ((before ++ rest).drop (before.length + found.fin)).take (found.next - found.fin) = padding
    have fin_length : found.fin = (header ++ content).length := by rw [List.length_append, fin_eq]
    have width : found.next - found.fin = padding.length := by omega
    rw [List.drop_length_add_append, width, rest_eq, fin_length, List.append_assoc (header ++ content),
      List.drop_left, List.take_left]
  rw [padding_eq]
  rcases kind with ⟨-, kind⟩ | ⟨-, -, breaks, whole⟩
  · exact kind
  · exact iff_of_true breaks whole

theorem messagesFrom_chained (cur : Nat) (rest : List UInt8) :
    Chained cur ((messagesFrom cur rest).map (·.1)) (cur + rest.length) := by
  fun_induction messagesFrom cur rest with
  | case1 cur => rfl
  | case2 cur rest nonempty found ih =>
      have cuts := singleParse_cuts rest
      have progress := cuts.progress nonempty
      refine ⟨rfl, ?_⟩
      rw [List.length_drop] at ih
      have total : cur + found.next + (rest.length - found.next) = cur + rest.length := by
        change cur + (singleParse rest).next + (rest.length - (singleParse rest).next) = cur + rest.length
        omega
      rw [total] at ih
      change Chained ((singleParse rest).place cur).next _ _
      rw [cuts.place_next]
      exact ih

theorem messagesFrom_mem {cur : Nat} {rest : List UInt8} {message : MsgPlace × UInt32}
    (member : message ∈ messagesFrom cur rest) : ∃ before behind, rest = before ++ behind ∧ behind ≠ [] ∧
      message = ((singleParse behind).place (cur + before.length), (singleParse behind).uid) := by
  fun_induction messagesFrom cur rest with
  | case1 cur => exact absurd member List.not_mem_nil
  | case2 cur rest nonempty found ih =>
      rcases List.mem_cons.mp member with rfl | member
      · exact ⟨[], rest, rfl, nonempty, rfl⟩
      · obtain ⟨before, behind, split, behind_ne, message_eq⟩ := ih member
        have bound := ((singleParse_cuts rest).progress nonempty).2
        refine ⟨rest.take found.next ++ before, behind, ?_, behind_ne, ?_⟩
        · rw [List.append_assoc, ← split, List.take_append_drop]
        · rw [message_eq, List.length_append, List.length_take, min_eq_left bound, Nat.add_assoc]

theorem messagesFrom_padding {file : List UInt8} {message : MsgPlace × UInt32}
    (member : message ∈ messagesFrom 0 file) :
    Breaks (message.1.padding file) ↔ cutShort .firstLF (file.drop message.1.msgBody) = false := by
  obtain ⟨before, behind, rfl, -, rfl⟩ := messagesFrom_mem member
  have body : (before ++ behind).drop (((singleParse behind).place (0 + before.length)).msgBody) =
      behind.drop (singleParse behind).body := by
    rw [Nat.zero_add]
    exact List.drop_length_add_append _
  rw [body, Nat.zero_add]
  exact (singleParse_cuts behind).padding before

/-- The messages that parsing finds always cover the file in order.  The padding between
them is line ends alone unless the file ends on a lone line end or inside a separator: the
line before it is then counted as padding of the last message. -/
theorem mailmboxParse_tiling (folder : MailmboxFolder) :
    Tiling folder.mbMapping ((mailmboxParse folder).infos.map (·.toMsgPlace)) ↔
      ∀ message ∈ messagesFrom 0 folder.mbMapping,
        cutShort .firstLF (folder.mbMapping.drop message.1.msgBody) = false := by
  rw [mailmboxParse_places]
  constructor
  · intro tiling message member
    exact (messagesFrom_padding member).mp (tiling.padded message.1 (List.mem_map_of_mem member))
  · intro whole
    exact {
      chained := by
        have chained := messagesFrom_chained 0 folder.mbMapping
        rwa [Nat.zero_add] at chained
      ordered := by
        intro place member
        obtain ⟨message, listed, rfl⟩ := List.mem_map.mp member
        obtain ⟨before, behind, -, -, rfl⟩ := messagesFrom_mem listed
        exact (singleParse_cuts behind).ordered _
      padded := by
        intro place member
        obtain ⟨message, listed, rfl⟩ := List.mem_map.mp member
        exact (messagesFrom_padding listed).mpr (whole message listed) }

def shortFile : List UInt8 := [ascii 'H', ascii ':', LF, LF, ascii 'a', LF]

/-- The only line of the only message is padding. -/
theorem mailmboxParse_lastLine_lost :
    ¬ Tiling shortFile ((mailmboxInit shortFile false false 0).infos.map (·.toMsgPlace)) := by
  intro tiling
  have padding : ∀ place ∈ (mailmboxInit shortFile false false 0).infos.map (·.toMsgPlace),
      place.padding shortFile = [ascii 'a', LF] := by decide +kernel
  have member : (mailmboxInit shortFile false false 0).infos.map (·.toMsgPlace) ≠ [] := by decide +kernel
  obtain ⟨place, member⟩ := List.exists_mem_of_ne_nil _ member
  have breaks := tiling.padded place member
  rw [padding place member] at breaks
  revert breaks
  simp [Breaks]
  decide

/-! What a folder holds, by what can be fetched from it. -/

/-! ### Header fields that are written -/

theorem fixedFields_none {message : List UInt8} (failed : mailimfIgnoreFieldParse message = none) :
    fixedFields message = ([], message) := by
  rw [fixedFields]
  split
  · rfl
  · rename_i succeeded
    rw [failed] at succeeded
    contradiction

theorem fixedFields_some {message : List UInt8} {length : Nat} (parsed : mailimfIgnoreFieldParse message = some length) :
    fixedFields message =
      (if isUidHeader message then (fixedFields (message.drop length)).1
        else message.take length ++ (fixedFields (message.drop length)).1, (fixedFields (message.drop length)).2) := by
  rw [fixedFields]
  split
  · rename_i failed
    rw [parsed] at failed
    contradiction
  · rename_i found succeeded
    rw [parsed] at succeeded
    cases succeeded
    rfl

def keptFields (fields : List (List UInt8)) : List UInt8 := (fields.filter fun field => !isUidHeader field).flatten

theorem fixedFields_fields {fields : List (List UInt8)} {tail : List UInt8} (fieldsThen : FieldsThen fields tail) :
    fixedFields (fields.flatten ++ tail) = (keptFields fields ++ (fixedFields tail).1, (fixedFields tail).2) := by
  induction fieldsThen with
  | nil => rfl
  | @cons field fields tail isField ends behind ih =>
      rw [List.flatten_cons, List.append_assoc, fixedFields_some (isField.append ends), List.drop_left, ih,
        isField.isUidHeader_append, List.take_left, keptFields, keptFields, List.filter_cons]
      cases isUidHeader field <;> simp

theorem keptFields_uidLine (fields : List (List UInt8)) (number : List UInt8) :
    keptFields (fields ++ [uidLine number]) = keptFields fields := by
  have header := isUidHeader_uidLine number []
  rw [List.append_nil] at header
  rw [keptFields, keptFields, List.filter_append, List.filter_singleton, header]
  simp

theorem writeFixedMessage_uidLine {fields : List (List UInt8)} {tail number : List UInt8}
    (fieldsThen : FieldsThen fields tail) (noBreak : ∀ byte ∈ number, byte ≠ CR ∧ byte ≠ LF)
    (notBlank : startsBlank tail = false) :
    writeFixedMessage ((fields ++ [uidLine number]).flatten ++ tail) none =
      writeFixedMessage (fields.flatten ++ tail) none := by
  have inserted : FieldsThen (fields ++ [uidLine number]) tail :=
    (fieldsThen.replace (startsBlank_uidLine number tail)).snoc (isField_uidLine noBreak) notBlank
  rw [writeFixedMessage, writeFixedMessage, fixedFields_fields inserted, fixedFields_fields fieldsThen,
    keptFields_uidLine]

def SingleParse.data (found : SingleParse) (rest : List UInt8) : List UInt8 :=
  (rest.drop found.startLen).take (found.fin - found.startLen)

def contentsFrom (rest : List UInt8) : List (UInt32 × List UInt8) :=
  if _nothing : rest = [] then []
  else ((singleParse rest).uid, (singleParse rest).data rest) :: contentsFrom (rest.drop (singleParse rest).next)
termination_by rest.length
decreasing_by
  have progress := (singleParse_cuts rest).progress _nothing
  rw [List.length_drop]
  omega

theorem contentsFrom_cons {rest : List UInt8} (nonempty : rest ≠ []) :
    contentsFrom rest =
      ((singleParse rest).uid, (singleParse rest).data rest) :: contentsFrom (rest.drop (singleParse rest).next) := by
  rw [contentsFrom, dif_neg nonempty]

@[simp] theorem contentsFrom_nil : contentsFrom [] = [] := by rw [contentsFrom, dif_pos rfl]

@[simp] theorem messagesFrom_nil (cur : Nat) : messagesFrom cur [] = [] := by rw [messagesFrom, dif_pos rfl]

def MsgPlace.data (place : MsgPlace) (file : List UInt8) : List UInt8 :=
  (file.drop place.msgHeaders).take (place.msgSize - place.msgStartLen)

theorem messagesFrom_contents (before rest : List UInt8) :
    (messagesFrom before.length rest).map (fun message => (message.2, message.1.data (before ++ rest))) =
      contentsFrom rest := by
  induction length : rest.length using Nat.strong_induction_on generalizing before rest with
  | _ length ih =>
      by_cases nothing : rest = []
      · simp [nothing]
      · have progress := (singleParse_cuts rest).progress nothing
        have behind := ih (rest.drop (singleParse rest).next).length (by rw [List.length_drop]; omega)
          (before ++ rest.take (singleParse rest).next) (rest.drop (singleParse rest).next) rfl
        rw [List.append_assoc, List.take_append_drop, List.length_append, List.length_take,
          min_eq_left progress.2] at behind
        rw [messagesFrom_cons _ nothing, contentsFrom_cons nothing, List.map_cons, behind]
        congr 2
        change ((before ++ rest).drop (before.length + (singleParse rest).startLen)).take _ = _
        rw [List.drop_length_add_append]
        rfl

/-- The UIDs of the headers, 0 for one that an earlier message has. -/
def claimedUids : List UInt32 → List UInt32 → List UInt32
  | _, [] => []
  | seen, uid :: uids =>
      (if uid ∈ seen then 0 else uid) :: claimedUids (seen ++ [if uid ∈ seen then 0 else uid]) uids

def numberUids : UInt32 → List UInt32 → List UInt32
  | _, [] => []
  | maxUid, uid :: uids =>
      if uid ≠ 0 then uid :: numberUids maxUid uids else (maxUid + 1) :: numberUids (maxUid + 1) uids

def highestUidOf (writtenUid : UInt32) (uids : List UInt32) : UInt32 :=
  uids.foldl (fun highest uid => higherUid uid highest) writtenUid

theorem freshInfos_uids (infos : List MailmboxMsgInfo) (messages : List (MsgPlace × UInt32)) :
    (freshInfos infos messages).map (·.msgUid) =
      infos.map (·.msgUid) ++ claimedUids (infos.map (·.msgUid)) (messages.map (·.2)) := by
  induction messages generalizing infos with
  | nil => simp [freshInfos, claimedUids]
  | cons found messages ih =>
      have continued : freshInfos infos (found :: messages) =
          freshInfos (infos ++ [freshInfo infos found]) messages := rfl
      rw [continued, ih, List.map_append, List.map_singleton, List.map_cons, claimedUids, List.append_assoc]
      rfl

theorem fileInfos_uids (file : List UInt8) :
    (fileInfos file).map (·.msgUid) = claimedUids [] ((contentsFrom file).map (·.1)) := by
  have contents := messagesFrom_contents [] file
  rw [fileInfos, freshInfos_uids, ← contents, List.map_map]
  rfl

theorem numberInfos_uids (maxUid : UInt32) (infos : List MailmboxMsgInfo) :
    (numberInfos maxUid infos).map (·.msgUid) = numberUids maxUid (infos.map (·.msgUid)) := by
  induction infos generalizing maxUid with
  | nil => rfl
  | cons info infos ih =>
      rw [numberInfos, List.map_cons, numberUids]
      split_ifs <;> rw [List.map_cons, ih]

theorem highestOf_eq (writtenUid : UInt32) (infos : List MailmboxMsgInfo) :
    highestOf writtenUid infos = highestUidOf writtenUid (infos.map (·.msgUid)) := by
  rw [highestOf, highestUidOf, List.foldl_map]

def parsedUids (writtenUid : UInt32) (headers : List UInt32) : List UInt32 :=
  numberUids (highestUidOf writtenUid (claimedUids [] headers)) (claimedUids [] headers)

def UidsFit (writtenUid : UInt32) (headers : List UInt32) : Prop :=
  (highestUidOf writtenUid (claimedUids [] headers)).toNat + (claimedUids [] headers).count 0 < 2 ^ 32

instance (writtenUid : UInt32) (headers : List UInt32) : Decidable (UidsFit writtenUid headers) :=
  inferInstanceAs (Decidable (_ < _))

theorem mailmboxParse_uids (folder : MailmboxFolder) :
    (mailmboxParse folder).infos.map (·.msgUid) =
      parsedUids folder.mbWrittenUid ((contentsFrom folder.mbMapping).map (·.1)) := by
  rw [(mailmboxParse_parsed folder).infos, numberInfos_uids, highestOf_eq, fileInfos_uids]
  rfl

theorem freshInfos_undeleted {infos : List MailmboxMsgInfo} {messages : List (MsgPlace × UInt32)}
    (undeleted : ∀ info ∈ infos, info.msgDeleted = false) :
    ∀ info ∈ freshInfos infos messages, info.msgDeleted = false := by
  induction messages generalizing infos with
  | nil => exact undeleted
  | cons found messages ih =>
      apply ih
      intro info member
      rcases List.mem_append.mp member with early | last
      · exact undeleted info early
      · rw [List.mem_singleton.mp last]
        rfl

theorem numberInfos_undeleted {maxUid : UInt32} {infos : List MailmboxMsgInfo}
    (undeleted : ∀ info ∈ infos, info.msgDeleted = false) :
    ∀ info ∈ numberInfos maxUid infos, info.msgDeleted = false := by
  induction infos generalizing maxUid with
  | nil => exact undeleted
  | cons info infos ih =>
      have first := undeleted info (.head _)
      have others : ∀ maxUid, ∀ other ∈ numberInfos maxUid infos, other.msgDeleted = false :=
        fun maxUid => ih fun other member => undeleted other (.tail _ member)
      intro other member
      rw [numberInfos] at member
      split_ifs at member
      · rcases List.mem_cons.mp member with rfl | member
        · exact first
        · exact others _ other member
      · rcases List.mem_cons.mp member with rfl | member
        · exact first
        · exact others _ other member

def MailmboxFolder.listing (folder : MailmboxFolder) (infos : List MailmboxMsgInfo) :
    List (UInt32 × Except MailmboxError (List UInt8)) :=
  infos.map fun info => (info.msgUid, mailmboxFetchMsg folder info.msgUid)

theorem MailmboxFolder.Consistent.fetch {folder : MailmboxFolder} (consistent : folder.Consistent)
    {info : MailmboxMsgInfo} (member : info ∈ folder.infos) (kept : info.msgDeleted = false) :
    mailmboxFetchMsg folder info.msgUid = .ok (writeFixedMessage (info.toMsgPlace.data folder.mbMapping) none) := by
  obtain ⟨address, listed, rfl⟩ := List.mem_map.mp member
  rw [mailmboxFetchMsg, (consistent.hashed _ address).mpr ⟨listed, rfl⟩]
  simp only [kept, Bool.false_eq_true, if_false]
  rfl

theorem MailmboxFolder.Consistent.listing {folder : MailmboxFolder} (consistent : folder.Consistent)
    {infos : List MailmboxMsgInfo} (listed : ∀ info ∈ infos, info ∈ folder.infos)
    (kept : ∀ info ∈ infos, info.msgDeleted = false) :
    folder.listing infos = infos.map fun info =>
      (info.msgUid, .ok (writeFixedMessage (info.toMsgPlace.data folder.mbMapping) none)) := by
  apply List.map_congr_left
  intro info member
  rw [consistent.fetch (listed info member) (kept info member)]

theorem mailmboxParse_listing (folder : MailmboxFolder)
    (fit : UidsFit folder.mbWrittenUid ((contentsFrom folder.mbMapping).map (·.1))) :
    (mailmboxParse folder).Consistent ∧
      (mailmboxParse folder).listing (mailmboxParse folder).infos =
        List.zipWith (fun uid content => (uid, .ok (writeFixedMessage content.2 none)))
          (parsedUids folder.mbWrittenUid ((contentsFrom folder.mbMapping).map (·.1)))
          (contentsFrom folder.mbMapping) := by
  have parsed := mailmboxParse_parsed folder
  have consistent : (mailmboxParse folder).Consistent := by
    apply mailmboxParse_consistent
    have zeros : (fileInfos folder.mbMapping).countP (fun info => info.msgUid = 0) =
        ((fileInfos folder.mbMapping).map (·.msgUid)).count 0 := by
      rw [List.count, List.countP_map]
      rfl
    rw [zeros, highestOf_eq, fileInfos_uids]
    exact fit
  refine ⟨consistent, ?_⟩
  have undeleted : ∀ info ∈ (mailmboxParse folder).infos, info.msgDeleted = false := by
    rw [parsed.infos]
    exact numberInfos_undeleted (freshInfos_undeleted nofun)
  have split : ∀ infos : List MailmboxMsgInfo,
      (infos.map fun info => (info.msgUid, (Except.ok (writeFixedMessage (info.toMsgPlace.data folder.mbMapping) none) :
          Except MailmboxError (List UInt8)))) =
        List.zipWith (fun uid place => (uid, .ok (writeFixedMessage (place.data folder.mbMapping) none)))
          (infos.map (·.msgUid)) (infos.map (·.toMsgPlace)) := by
    intro infos
    rw [List.zipWith_map, List.zipWith_self]
  have contents := messagesFrom_contents [] folder.mbMapping
  rw [consistent.listing (fun _ member => member) undeleted, parsed.same.mapping, split, mailmboxParse_places,
    mailmboxParse_uids, ← contents, List.zipWith_map_right, List.zipWith_map_right]
  rfl

end Etpan.Mbox
