import Etpan.Mbox.LetterFile
import Etpan.Mbox.Placed
import Etpan.Mbox.Sizes

namespace Etpan.Mbox

open Etpan.Data

/-! Letters that are appended in any number of calls, and what a parser finds of them afterwards. -/

def callEntries (noUid : Bool) (line : FromLine) : UInt32 → List Letter → List Entry
  | _, [] => []
  | maxUid, letter :: letters =>
      ⟨line, if noUid then none else some (maxUid + 1), letter⟩ :: callEntries noUid line (maxUid + 1) letters

theorem callEntries_letters (noUid : Bool) (line : FromLine) (maxUid : UInt32) (letters : List Letter) :
    (callEntries noUid line maxUid letters).map (·.letter) = letters := by
  induction letters generalizing maxUid with
  | nil => rfl
  | cons letter letters ih => rw [callEntries, List.map_cons, ih]

theorem signedDecimal_small {uid : UInt32} (small : uid.toNat < 2 ^ 31) : signedDecimal uid = decimal uid.toNat :=
  if_pos small

theorem Entry.writeFixedMessage_text (entry : Entry) (small : ∀ uid ∈ entry.uid, uid.toNat < 2 ^ 31) :
    writeFixedMessage entry.letter.text entry.uid = entry.fields.flatten ++ (entry.letter.blank ++ entry.letter.quoted) := by
  rw [entry.letter.writeFixedMessage_text]
  cases number : entry.uid with
  | none => simp [Entry.fields, Entry.uidFields, number]
  | some uid => simp [Entry.fields, Entry.uidFields, number, signedDecimal_small (small uid number)]

section Call

variable {noUid : Bool} (line : FromLine) {maxUid : UInt32} {letters : List Letter}

def CallFits (noUid : Bool) (maxUid : UInt32) (letters : List Letter) : Prop :=
  noUid = false → maxUid.toNat + letters.length < 2 ^ 31

theorem CallFits.cons {letter : Letter} (fits : CallFits noUid maxUid (letter :: letters)) :
    (noUid = false → (maxUid + 1).toNat = maxUid.toNat + 1 ∧ (maxUid + 1).toNat < 2 ^ 31) ∧ CallFits noUid (maxUid + 1) letters := by
  have next : noUid = false → (maxUid + 1).toNat = maxUid.toNat + 1 := by
    intro numbered
    have room := fits numbered
    rw [List.length_cons] at room
    exact (succ_ne_zero_of_lt (by omega)).1
  refine ⟨fun numbered => ⟨next numbered, ?_⟩, fun numbered => ?_⟩
  · have room := fits numbered
    rw [List.length_cons] at room
    rw [next numbered]
    omega
  · have room := fits numbered
    rw [List.length_cons] at room
    rw [next numbered]
    omega

theorem callEntries_small (fits : CallFits noUid maxUid letters) :
    ∀ entry ∈ callEntries noUid line maxUid letters, ∀ uid ∈ entry.uid, uid.toNat < 2 ^ 31 := by
  induction letters generalizing maxUid with
  | nil => exact fun _ member => absurd member List.not_mem_nil
  | cons letter letters ih =>
      obtain ⟨first, behind⟩ := fits.cons
      refine List.forall_mem_cons.mpr ⟨fun uid member => ?_, ih behind⟩
      cases numbered : noUid with
      | true => simp [numbered] at member
      | false =>
          simp only [numbered, Bool.false_eq_true, if_false, Option.mem_def, Option.some.injEq] at member
          exact member ▸ (first numbered).2

theorem appendedMessages_letters (fits : CallFits noUid maxUid letters) :
    appendedMessages noUid line maxUid (letters.map Letter.text) = fileText (callEntries noUid line maxUid letters) := by
  induction letters generalizing maxUid with
  | nil => rfl
  | cons letter letters ih =>
      obtain ⟨-, behind⟩ := fits.cons
      have written := Entry.writeFixedMessage_text ⟨line, if noUid then none else some (maxUid + 1), letter⟩
        (callEntries_small line fits _ List.mem_cons_self)
      dsimp only at written
      rw [List.map_cons, appendedMessages, ih behind, written, callEntries, fileText, fileText, List.flatMap_cons, Entry.text]
      simp only [List.append_assoc]

theorem appendedSize_letters (fits : CallFits noUid maxUid letters) :
    appendedSize noUid line maxUid (letters.map Letter.text) =
      (appendedMessages noUid line maxUid (letters.map Letter.text)).length := by
  induction letters generalizing maxUid with
  | nil => rfl
  | cons letter letters ih =>
      obtain ⟨first, behind⟩ := fits.cons
      have size := getFixedMessageSize_eq letter.text (if noUid then none else some (maxUid + 1))
      have counted : (if noUid then none else some (maxUid + 1)).elim 0 (fun uid => (signedDecimal uid).length) =
          (if noUid then none else some (maxUid + 1)).elim 0 fun uid => digitCount uid.toNat := by
        cases numbered : noUid with
        | true => rfl
        | false => exact (signedDecimal_length (maxUid + 1)).mpr (.inl (first numbered).2)
      rw [List.map_cons, appendedSize, appendedMessages, ih behind]
      simp only [List.length_append, List.length_singleton]
      omega

end Call

theorem Entry.text_ends (entry : Entry) : ∃ start, entry.text = start ++ [LF, LF] := by
  have blank : ∃ start, entry.letter.blank = start ++ [LF] := by
    rcases entry.letter.isBlank with blank | blank
    · exact ⟨[], blank⟩
    · exact ⟨[CR], blank⟩
  rcases entry.letter.lined_quoted with body | ⟨lines, body⟩
  · obtain ⟨start, ends⟩ := blank
    exact ⟨entry.line.text ++ (entry.fields.flatten ++ start), by rw [Entry.text, body, ends]; simp⟩
  · exact ⟨entry.line.text ++ (entry.fields.flatten ++ (entry.letter.blank ++ lines)), by rw [Entry.text, body]; simp⟩

theorem fileText_ends {entries : List Entry} (nonempty : entries ≠ []) : ∃ start, fileText entries = start ++ [LF, LF] := by
  obtain ⟨start, ends⟩ := (entries.getLast nonempty).text_ends
  refine ⟨fileText entries.dropLast ++ start, ?_⟩
  conv_lhs => rw [← List.dropLast_append_getLast nonempty]
  rw [fileText, List.flatMap_append, List.flatMap_singleton, ends, List.append_assoc]
  rfl

theorem fileText_breaks (entries : List Entry) :
    (if fileText entries = [] then 0 else 2 - crlfCount (fileText entries)) = 0 := by
  by_cases nothing : entries = []
  · subst nothing
    rfl
  · obtain ⟨start, ends⟩ := fileText_ends nothing
    have two : crlfCount (fileText entries) = 2 := by
      rw [ends, crlfCount]
      simp
    rw [two]
    exact ite_self 0

theorem mailmboxAppendMessageListNoLock_mapping {folder : MailmboxFolder} {entries : List Entry} {letters : List Letter} (line : FromLine)
    (mapping : folder.mbMapping = fileText entries) (fits : CallFits folder.mbNoUid folder.mbMaxUid letters) :
    (mailmboxAppendMessageListNoLock folder line (letters.map Letter.text)).mbMapping =
      fileText (entries ++ callEntries folder.mbNoUid line folder.mbMaxUid letters) := by
  have written := appendedMessages_letters line fits
  have size := appendedSize_letters line fits
  rw [mailmboxAppendMessageListNoLock]
  dsimp only
  rw [mapping, fileText_breaks, size, written, List.replicate_zero, List.append_nil, fileText, fileText, fileText,
    List.flatMap_append, resized, List.take_of_length_le]
  · simp
  · simp

theorem callEntries_uids (line : FromLine) {maxUid : UInt32} {letters : List Letter} (fits : CallFits false maxUid letters) :
    Climbs maxUid ((callEntries false line maxUid letters).map fun entry => entry.uid.getD 0) ∧
      (highestUidOf maxUid ((callEntries false line maxUid letters).map fun entry => entry.uid.getD 0)).toNat =
        maxUid.toNat + letters.length ∧
      ∀ uid ∈ (callEntries false line maxUid letters).map fun entry => entry.uid.getD 0, maxUid < uid := by
  induction letters generalizing maxUid with
  | nil => exact ⟨trivial, rfl, fun _ member => absurd member List.not_mem_nil⟩
  | cons letter letters ih =>
      obtain ⟨first, behind⟩ := fits.cons
      obtain ⟨next, -⟩ := first rfl
      obtain ⟨climbs, highest, above⟩ := ih behind
      have higher : maxUid < maxUid + 1 := by
        rw [UInt32.lt_iff_toNat_lt, next]
        exact Nat.lt_succ_self _
      have taken : higherUid (maxUid + 1) maxUid = maxUid + 1 := if_pos higher
      simp only [callEntries, Bool.false_eq_true, if_false, List.map_cons, Option.getD_some]
      refine ⟨⟨.inr higher, by rwa [taken]⟩, ?_, ?_⟩
      · change (highestUidOf (higherUid (maxUid + 1) maxUid) _).toNat = _
        rw [taken, highest, next, List.length_cons]
        omega
      · exact List.forall_mem_cons.mpr ⟨higher, fun uid member => UInt32.lt_trans higher (above uid member)⟩

theorem addedInfos_uids (index : Nat) (messages : List (MsgPlace × UInt32)) :
    (addedInfos index messages).map (·.msgUid) = messages.map (·.2) := by
  induction messages generalizing index with
  | nil => rfl
  | cons found messages ih => rw [addedInfos, List.map_cons, List.map_cons, ih]; rfl

theorem count_zero {uids : List UInt32} (nonzero : ∀ uid ∈ uids, uid ≠ 0) : uids.count 0 = 0 :=
  List.count_eq_zero.mpr fun member => nonzero 0 member rfl

theorem mailmboxParseAdditionnal_numbered {folder : MailmboxFolder} (consistent : folder.Consistent) {written : UInt32}
    (highest : folder.mbWrittenUid = written ∧ ∀ address ∈ folder.mbTab, (folder.info address).msgUid ≤ written) (cur : Nat)
    (climbs : Climbs written ((messagesFrom cur (folder.mbMapping.drop cur)).map (·.2)))
    (above : ∀ uid ∈ (messagesFrom cur (folder.mbMapping.drop cur)).map (·.2), written < uid) :
    (mailmboxParseAdditionnal folder cur).Consistent ∧
      (mailmboxParseAdditionnal folder cur).mbWrittenUid =
        highestUidOf written ((messagesFrom cur (folder.mbMapping.drop cur)).map (·.2)) ∧
      (mailmboxParseAdditionnal folder cur).mbMaxUid = (mailmboxParseAdditionnal folder cur).mbWrittenUid := by
  have same : mailmboxParseAdditionnal folder cur =
      ((messagesFrom cur (folder.mbMapping.drop cur)).foldl Parsing.message (additional folder cur)).number := rfl
  rw [same]
  have valid := consistent.additional cur
  have tab : ∀ address ∈ (additional folder cur).folder.mbTab,
      address ∈ folder.mbTab ∧ ((additional folder cur).folder.info address).msgUid = (folder.info address).msgUid := by
    intro address member
    exact ⟨List.mem_of_mem_filter member, reindex_msgUid (folder.removeStale cur) address⟩
  have start : (additional folder cur).maxUid = written := by
    change ((folder.removeStale cur).reindex).highestUid = written
    rw [highestUid_eq]
    change highestUidOf folder.mbWrittenUid _ = written
    rw [highest.1]
    apply highestUidOf_eq
    intro uid member
    obtain ⟨info, listed, rfl⟩ := List.mem_map.mp member
    obtain ⟨address, known, rfl⟩ := List.mem_map.mp listed
    obtain ⟨old, same⟩ := tab address known
    exact (congrArg (· ≤ written) same).mpr (highest.2 address old)
  rw [← start] at climbs
  obtain ⟨infos, maxUid, firstIndex⟩ := valid.messages_unknown climbs
  have result := valid.messages (messagesFrom cur (folder.mbMapping.drop cur))
  generalize messagesFrom cur (folder.mbMapping.drop cur) = messages at *
  have added : (addedInfos (additional folder cur).folder.infos.length messages).map (·.msgUid) = messages.map (·.2) :=
    addedInfos_uids _ _
  have fresh : ∀ uid ∈ messages.map (·.2), uid ≠ 0 := by
    rintro uid member rfl
    exact absurd (above 0 member) (UInt32.not_lt.mpr (UInt32.le_iff_toNat_le.mpr (Nat.zero_le _)))
  have old : ∀ uid ∈ (additional folder cur).folder.infos.map (·.msgUid), uid ≠ 0 := by
    intro uid member
    obtain ⟨info, listed, rfl⟩ := List.mem_map.mp member
    obtain ⟨address, known, rfl⟩ := List.mem_map.mp listed
    obtain ⟨isOld, same⟩ := tab address known
    exact fun zero => consistent.nonzero address isOld (same.symm.trans zero)
  have length : (additional folder cur).firstIndex = (additional folder cur).folder.infos.length := by
    rw [MailmboxFolder.infos, List.length_map]
    rfl
  -- No message waits for a number.
  have late : (messages.foldl Parsing.message (additional folder cur)).folder.waiting
      ((messages.foldl Parsing.message (additional folder cur)).folder.mbTab.drop
        (messages.foldl Parsing.message (additional folder cur)).firstIndex) = 0 := by
    rw [waiting_infos, infos, firstIndex, length, List.drop_left, added]
    exact count_zero fresh
  have whole : (messages.foldl Parsing.message (additional folder cur)).folder.waiting
      (messages.foldl Parsing.message (additional folder cur)).folder.mbTab = 0 := by
    have all := waiting_infos (messages.foldl Parsing.message (additional folder cur)).folder 0
    rw [List.drop_zero, List.drop_zero] at all
    rw [all, infos, List.map_append, added]
    exact count_zero fun uid member => (List.mem_append.mp member).elim (old uid) (fresh uid)
  have bound := (messages.foldl Parsing.message (additional folder cur)).maxUid.toNat_lt
  have counter := result.number_maxUid (by rw [late]; exact bound)
  rw [late, Nat.add_zero] at counter
  refine ⟨(result.consistent (by rw [whole]; exact bound)).1, ?_, UInt32.toNat_inj.mp counter⟩
  exact maxUid.trans (congrArg (highestUidOf · _) start)

def appendCalls (folder : MailmboxFolder) : List (FromLine × List Letter) → Except MailmboxError MailmboxFolder
  | [] => .ok folder
  | call :: calls =>
      match mailmboxAppendMessageList folder call.1 (call.2.map Letter.text) with
      | .error error => .error error
      | .ok folder => appendCalls folder calls

/-- The folder has these letters in its file, and the next UIDs are those behind theirs. -/
structure Stores (base : UInt32) (entries : List Entry) (folder : MailmboxFolder) : Prop where
  writable : folder.mbReadOnly = false
  unchanged : folder.mbChanged = false
  mapping : folder.mbMapping = fileText entries
  small : ∀ entry ∈ entries, ∀ uid ∈ entry.uid, uid.toNat < 2 ^ 31
  numbered : folder.mbNoUid = false →
    folder.Consistent ∧ folder.mbMaxUid = folder.mbWrittenUid ∧ folder.mbMaxUid.toNat = base.toNat + entries.length

section Runs

variable {base : UInt32} {entries : List Entry} {folder : MailmboxFolder}

theorem Stores.nothingToDo (stores : Stores base entries folder) : folder.nothingToDo := by
  refine ⟨?_, stores.unchanged⟩
  cases noUid : folder.mbNoUid with
  | true => exact .inr rfl
  | false => exact .inl ((stores.numbered noUid).2.1 ▸ UInt32.le_refl _)

theorem Stores.callFits (stores : Stores base entries folder) {letters : List Letter}
    (room : base.toNat + (entries.length + letters.length) < 2 ^ 31) : CallFits folder.mbNoUid folder.mbMaxUid letters := by
  intro noUid
  rw [(stores.numbered noUid).2.2]
  omega

theorem Stores.called (stores : Stores base entries folder) (line : FromLine) {letters : List Letter}
    (room : base.toNat + (entries.length + letters.length) < 2 ^ 31) :
    mailmboxAppendMessageList folder line (letters.map Letter.text) =
        .ok (mailmboxParseAdditionnal (mailmboxAppendMessageListNoLock folder line (letters.map Letter.text))
          folder.mbMapping.length) ∧
      (mailmboxAppendMessageListNoLock folder line (letters.map Letter.text)).mbMapping =
        fileText (entries ++ callEntries folder.mbNoUid line folder.mbMaxUid letters) := by
  have same := mailmboxExpungeNoLock_same stores.writable stores.nothingToDo
  refine ⟨?_, mailmboxAppendMessageListNoLock_mapping line stores.mapping (stores.callFits room)⟩
  rw [mailmboxAppendMessageList, stores.writable, if_neg Bool.false_ne_true, same]

theorem messagesFrom_uids (before rest : List UInt8) :
    (messagesFrom before.length rest).map (·.2) = (contentsFrom rest).map (·.1) := by
  rw [← messagesFrom_contents before rest, List.map_map]
  rfl

theorem Stores.append (stores : Stores base entries folder) (line : FromLine) {letters : List Letter}
    (safe : ∀ letter ∈ letters, letter.Safe) (room : base.toNat + (entries.length + letters.length) < 2 ^ 31) :
    ∃ after more, mailmboxAppendMessageList folder line (letters.map Letter.text) = .ok after ∧
      more.map Entry.letter = letters ∧ Stores base (entries ++ more) after := by
  obtain ⟨called, written⟩ := stores.called line room
  have sameFolder := mailmboxParseAdditionnal_sameFolder (mailmboxAppendMessageListNoLock folder line (letters.map Letter.text))
    folder.mbMapping.length
  have letters_eq := callEntries_letters folder.mbNoUid line folder.mbMaxUid letters
  refine ⟨_, callEntries folder.mbNoUid line folder.mbMaxUid letters, called, letters_eq, ?_⟩
  refine ⟨sameFolder.readOnly.trans stores.writable, sameFolder.changed.trans stores.unchanged, sameFolder.mapping.trans written, ?_, ?_⟩
  · intro entry member
    rcases List.mem_append.mp member with early | late
    · exact stores.small entry early
    · exact callEntries_small line (stores.callFits room) entry late
  intro noUid
  have numbered : folder.mbNoUid = false := sameFolder.noUid.symm.trans noUid
  obtain ⟨consistent, sameUid, counter⟩ := stores.numbered numbered
  have fits := stores.callFits room
  rw [numbered] at fits written letters_eq ⊢
  obtain ⟨climbs, highest, above⟩ := callEntries_uids line fits
  have entriesSafe : ∀ entry ∈ callEntries false line folder.mbMaxUid letters, entry.letter.Safe := by
    intro entry member
    exact safe entry.letter (letters_eq ▸ List.mem_map_of_mem member)
  have uids : (messagesFrom folder.mbMapping.length
      ((mailmboxAppendMessageListNoLock folder line (letters.map Letter.text)).mbMapping.drop folder.mbMapping.length)).map (·.2) =
        (callEntries false line folder.mbMaxUid letters).map fun entry => entry.uid.getD 0 := by
    rw [written, fileText, List.flatMap_append, ← fileText, ← fileText, ← stores.mapping, List.drop_left, messagesFrom_uids,
      contentsFrom_fileText entriesSafe, List.map_map]
    rfl
  have count : (folder.mbMaxUid + UInt32.ofNat letters.length).toNat = folder.mbMaxUid.toNat + letters.length := by
    rw [UInt32.toNat_add, UInt32.toNat_ofNat', Nat.mod_eq_of_lt (show letters.length < 2 ^ 32 by omega), Nat.mod_eq_of_lt (by omega)]
  have grown : (mailmboxAppendMessageListNoLock folder line (letters.map Letter.text)).Consistent := by
    refine ⟨consistent.nodup, consistent.below, consistent.indexed, consistent.hashed, consistent.nonzero, fun address member => ?_⟩
    change (folder.info address).msgUid ≤ folder.mbMaxUid + UInt32.ofNat (letters.map Letter.text).length
    have old := UInt32.le_iff_toNat_le.mp (consistent.highest address member)
    rw [List.length_map, UInt32.le_iff_toNat_le, count]
    omega
  obtain ⟨result, writtenUid, maxUid⟩ := @mailmboxParseAdditionnal_numbered _ grown folder.mbMaxUid
    ⟨sameUid.symm, consistent.highest⟩ folder.mbMapping.length (by rwa [uids]) (by rwa [uids])
  refine ⟨result, maxUid, ?_⟩
  have length : (callEntries false line folder.mbMaxUid letters).length = letters.length := by
    simpa only [List.length_map] using congrArg List.length letters_eq
  rw [maxUid, writtenUid, uids, highest, counter, List.length_append, length, Nat.add_assoc]

theorem Stores.calls (stores : Stores base entries folder) {calls : List (FromLine × List Letter)}
    (safe : ∀ letter ∈ calls.flatMap (·.2), letter.Safe)
    (room : base.toNat + (entries.length + (calls.flatMap (·.2)).length) < 2 ^ 31) :
    ∃ after more, appendCalls folder calls = .ok after ∧ more.map Entry.letter = calls.flatMap (·.2) ∧
      Stores base (entries ++ more) after := by
  induction calls generalizing entries folder with
  | nil => exact ⟨folder, [], rfl, rfl, by rwa [List.append_nil]⟩
  | cons call calls ih =>
      rw [List.flatMap_cons] at safe room ⊢
      rw [List.length_append] at room
      obtain ⟨next, first, called, letters, stored⟩ := stores.append call.1
        (fun letter member => safe letter (List.mem_append_left _ member)) (by omega)
      have length : first.length = call.2.length := by rw [← letters, List.length_map]
      obtain ⟨after, behind, rest, others, last⟩ := ih stored
        (fun letter member => safe letter (List.mem_append_right _ member)) (by rw [List.length_append]; omega)
      refine ⟨after, first ++ behind, ?_, by rw [List.map_append, letters, others], by rwa [← List.append_assoc]⟩
      rw [appendCalls, called]
      exact rest

end Runs

theorem stores_mailmboxInit (noUid : Bool) {base : UInt32} (room : base.toNat < 2 ^ 31) :
    Stores base [] (mailmboxInit [] false noUid base) := by
  have nothing : messagesFrom 0 [] = [] := by rw [messagesFrom, dif_pos rfl]
  have same : SameFolder _ (mailmboxInit [] false noUid base) := (mailmboxParse_parsed _).same
  refine ⟨same.readOnly, same.changed, same.mapping, fun _ member => absurd member List.not_mem_nil, fun _ => ⟨?_, ?_, ?_⟩⟩
  · apply mailmboxParse_consistent
    change (highestOf base (freshInfos [] (messagesFrom 0 []))).toNat + (freshInfos [] (messagesFrom 0 [])).countP _ < 2 ^ 32
    rw [nothing]
    change base.toNat + 0 < 2 ^ 32
    omega
  · rw [mailmboxInit, mailmboxParse_eq, nothing]
    rfl
  · rw [mailmboxInit, mailmboxParse_eq, nothing]
    rfl

/-- One message is found for each letter, in order, and each is fetched under its UID as the letter says. -/
structure FindsLetters (folder : MailmboxFolder) (letters : List Letter) : Prop where
  found : folder.infos.map (fun info => writeFixedMessage (info.toMsgPlace.data folder.mbMapping) none) = letters.map Letter.fetched
  fetched : ∀ info ∈ folder.infos,
    mailmboxFetchMsg folder info.msgUid = .ok (writeFixedMessage (info.toMsgPlace.data folder.mbMapping) none)

theorem mailmboxParse_data (folder : MailmboxFolder) :
    (mailmboxParse folder).infos.map (fun info => info.toMsgPlace.data (mailmboxParse folder).mbMapping) =
      (contentsFrom folder.mbMapping).map (·.2) := by
  have contents := congrArg (List.map (·.2)) (messagesFrom_contents [] folder.mbMapping)
  rw [List.map_map] at contents
  rw [← contents, (mailmboxParse_parsed folder).same.mapping]
  have places := congrArg (List.map fun place : MsgPlace => place.data folder.mbMapping) (mailmboxParse_places folder)
  rw [List.map_map, List.map_map] at places
  exact places

theorem mailmboxParse_undeleted (folder : MailmboxFolder) : ∀ info ∈ (mailmboxParse folder).infos, info.msgDeleted = false := by
  rw [(mailmboxParse_parsed folder).infos]
  exact numberInfos_undeleted (freshInfos_undeleted nofun)

theorem findsLetters_iff {entries : List Entry} {folder : MailmboxFolder} (mapping : folder.mbMapping = fileText entries)
    (fit : (∀ entry ∈ entries, entry.letter.Safe) → UidsFit folder.mbWrittenUid (entries.map fun entry => entry.uid.getD 0)) :
    FindsLetters (mailmboxParse folder) (entries.map Entry.letter) ↔ ∀ entry ∈ entries, entry.letter.Safe := by
  have found := congrArg (List.map fun data => writeFixedMessage data none) (mailmboxParse_data folder)
  rw [List.map_map, List.map_map, mapping] at found
  have letters := fileText_letters entries
  constructor
  · intro finds
    apply letters.mp
    have same := finds.found
    rw [List.map_map] at same
    exact found.symm.trans same
  · intro safe
    have headers : (contentsFrom folder.mbMapping).map (·.1) = entries.map fun entry => entry.uid.getD 0 := by
      rw [mapping, contentsFrom_fileText safe, List.map_map]
      rfl
    obtain ⟨consistent, -⟩ := mailmboxParse_listing folder (headers ▸ fit safe)
    refine ⟨?_, fun info member => consistent.fetch member (mailmboxParse_undeleted folder info member)⟩
    rw [List.map_map]
    exact found.trans (letters.mpr safe)

/-- The property of a list of letters: however they are appended to an empty mailbox, all of them are found in its file. -/
def AppendsRoundTrip (noUid : Bool) (base : UInt32) (letters : List Letter) : Prop :=
  ∀ calls : List (FromLine × List Letter), calls.flatMap (·.2) = letters →
    ∃ folder, appendCalls (mailmboxInit [] false noUid base) calls = .ok folder ∧
      ∀ reader : MailmboxFolder, reader.mbMapping = folder.mbMapping → reader.mbWrittenUid.toNat + letters.length < 2 ^ 32 →
        FindsLetters (mailmboxParse reader) letters

theorem highestUidOf_le {writtenUid : UInt32} {uids : List UInt32} {bound : Nat} (start : writtenUid.toNat ≤ bound)
    (lower : ∀ uid ∈ uids, uid.toNat ≤ bound) : (highestUidOf writtenUid uids).toNat ≤ bound := by
  induction uids generalizing writtenUid with
  | nil => exact start
  | cons uid uids ih =>
      have step : (higherUid uid writtenUid).toNat ≤ bound := by
        rw [higherUid]
        split_ifs
        · exact lower uid List.mem_cons_self
        · exact start
      exact ih step fun other member => lower other (List.mem_cons_of_mem uid member)

theorem claimedUids_length (seen uids : List UInt32) : (claimedUids seen uids).length = uids.length := by
  induction uids generalizing seen with
  | nil => rfl
  | cons uid uids ih => rw [claimedUids, List.length_cons, ih, List.length_cons]

/-- UIDs of 31 bits leave room for a temporary one for each message. -/
theorem uidsFit_small {writtenUid : UInt32} {uids : List UInt32} (small : ∀ uid ∈ uids, uid.toNat < 2 ^ 31)
    (few : uids.length < 2 ^ 31) (room : writtenUid.toNat + uids.length < 2 ^ 32) : UidsFit writtenUid uids := by
  have zeros : (claimedUids [] uids).count 0 ≤ uids.length := claimedUids_length [] uids ▸ List.count_le_length
  have claimed : ∀ uid ∈ claimedUids [] uids, uid.toNat < 2 ^ 31 := by
    intro uid member
    rcases mem_claimedUids member with rfl | listed
    · exact Nat.two_pow_pos 31
    · exact small uid listed
  rw [UidsFit]
  rcases Nat.lt_or_ge writtenUid.toNat (2 ^ 31) with low | high
  · have highest := @highestUidOf_le writtenUid (claimedUids [] uids) (2 ^ 31 - 1) (by omega) fun uid member => by
      have bound := claimed uid member
      omega
    omega
  · have highest := @highestUidOf_le writtenUid (claimedUids [] uids) writtenUid.toNat le_rfl fun uid member => by
      have bound := claimed uid member
      omega
    omega

theorem findsLetters_small {entries : List Entry} {folder reader : MailmboxFolder}
    (small : ∀ entry ∈ entries, ∀ uid ∈ entry.uid, uid.toNat < 2 ^ 31) (written : folder.mbMapping = fileText entries)
    (mapping : reader.mbMapping = folder.mbMapping) (few : entries.length < 2 ^ 31)
    (room : reader.mbWrittenUid.toNat + entries.length < 2 ^ 32) :
    FindsLetters (mailmboxParse reader) (entries.map Entry.letter) ↔ ∀ entry ∈ entries, entry.letter.Safe := by
  apply findsLetters_iff (mapping.trans written)
  intro _
  apply uidsFit_small
  · intro uid member
    obtain ⟨entry, listed, rfl⟩ := List.mem_map.mp member
    cases number : entry.uid with
    | none => exact Nat.two_pow_pos 31
    | some uid => exact small entry listed uid number
  · rwa [List.length_map]
  · rwa [List.length_map]

theorem AppendsRoundTrip.safe {noUid : Bool} {base : UInt32} {letters : List Letter} (trips : AppendsRoundTrip noUid base letters)
    (room : base.toNat + letters.length < 2 ^ 31) : ∀ letter ∈ letters, letter.Safe := by
  have start := @stores_mailmboxInit noUid base (by omega)
  obtain ⟨line⟩ : Nonempty FromLine := ⟨⟨[], List.not_mem_nil⟩⟩
  obtain ⟨folder, appended, finds⟩ := trips [(line, letters)] (by rw [List.flatMap_singleton])
  obtain ⟨called, written⟩ := @Stores.called base [] _ start line letters (by rw [List.length_nil]; omega)
  rw [appendCalls, called] at appended
  obtain rfl := Except.ok.inj appended
  have entries_eq := callEntries_letters (mailmboxInit [] false noUid base).mbNoUid line (mailmboxInit [] false noUid base).mbMaxUid letters
  have small := callEntries_small line (@Stores.callFits base [] _ start letters (by rw [List.length_nil]; omega))
  generalize callEntries (mailmboxInit [] false noUid base).mbNoUid line (mailmboxInit [] false noUid base).mbMaxUid letters =
    entries at written entries_eq small
  have mapping := (mailmboxParseAdditionnal_sameFolder (mailmboxAppendMessageListNoLock (mailmboxInit [] false noUid base) line
    (letters.map Letter.text)) (mailmboxInit [] false noUid base).mbMapping.length).mapping
  have length : entries.length = letters.length := by
    rw [← entries_eq, List.length_map]
  have found := finds { mailmboxInit [] false noUid base with mbMapping := fileText entries, mbWrittenUid := 0 }
    (mapping.trans written).symm (by rw [UInt32.toNat_zero]; omega)
  rw [← entries_eq] at found ⊢
  have fits : (0 : UInt32).toNat + entries.length < 2 ^ 32 := by
    rw [UInt32.toNat_zero]
    omega
  have safe := (findsLetters_small small rfl rfl (by omega) fits).mp found
  intro letter member
  obtain ⟨entry, listed, rfl⟩ := List.mem_map.mp member
  exact safe entry listed

def shortLetter (body : List UInt8) (ends : Lined body) : Letter where
  fields := [[ascii 'K', ascii ':', LF]]
  blank := [LF]
  body := body
  fields_ne := List.cons_ne_nil _ _
  isBlank := .inl rfl
  fieldsThen := .cons (by decide) (by decide) .nil
  ends := ends

def fromLetter : Letter := shortLetter (fromPrefix ++ [ascii 'x', LF]) (.inr ⟨fromPrefix ++ [ascii 'x'], by simp⟩)

def emptyLetter : Letter := shortLetter [] (.inl rfl)

def cutLetter : Letter := shortLetter [LF, ascii 'F', LF] (.inr ⟨[LF, ascii 'F'], rfl⟩)

def splitLetter : Letter := shortLetter (CR :: fromPrefix ++ [ascii 'x', LF]) (.inr ⟨CR :: fromPrefix ++ [ascii 'x'], by simp⟩)

end Etpan.Mbox
