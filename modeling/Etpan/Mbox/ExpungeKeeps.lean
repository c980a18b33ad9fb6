import Etpan.Mbox.Expunge

namespace Etpan.Mbox

open Etpan.Data

/-! What is left in a folder after expunging it. -/

/-! ### UIDs that are all in the file -/

theorem claimedUids_eq_self {seen uids : List UInt32} (nodup : uids.Nodup) (unseen : ∀ uid ∈ uids, uid ∉ seen) :
    claimedUids seen uids = uids := by
  induction uids generalizing seen with
  | nil => rfl
  | cons uid uids ih =>
      obtain ⟨outside, nodup⟩ := List.nodup_cons.mp nodup
      rw [claimedUids, if_neg (unseen uid (.head _)), ih nodup]
      intro other member
      rw [List.mem_append, List.mem_singleton, not_or]
      exact ⟨unseen other (.tail _ member), fun same => outside (same ▸ member)⟩

theorem numberUids_eq_self {maxUid : UInt32} {uids : List UInt32} (nonzero : ∀ uid ∈ uids, uid ≠ 0) :
    numberUids maxUid uids = uids := by
  induction uids with
  | nil => rfl
  | cons uid uids ih =>
      rw [numberUids, if_pos (nonzero uid (.head _)), ih fun other member => nonzero other (.tail _ member)]

theorem uidsFit_of_named (writtenUid : UInt32) {uids : List UInt32} (nodup : uids.Nodup)
    (nonzero : ∀ uid ∈ uids, uid ≠ 0) : UidsFit writtenUid uids ∧ parsedUids writtenUid uids = uids := by
  have claimed : claimedUids [] uids = uids := claimedUids_eq_self nodup fun _ _ => List.not_mem_nil
  rw [UidsFit, parsedUids, claimed, List.count_eq_zero_of_not_mem fun zero => nonzero 0 zero rfl]
  exact ⟨UInt32.toNat_lt _, numberUids_eq_self nonzero⟩

theorem MailmboxFolder.Consistent.uids_nodup {folder : MailmboxFolder} (consistent : folder.Consistent) :
    (folder.infos.map (·.msgUid)).Nodup := by
  rw [MailmboxFolder.infos, List.map_map]
  apply consistent.nodup.map_on
  intro first firstMember second secondMember same
  have firstHash := (consistent.hashed _ first).mpr ⟨firstMember, rfl⟩
  have secondHash := (consistent.hashed _ second).mpr ⟨secondMember, rfl⟩
  simp only [Function.comp_apply] at same
  rw [same, secondHash] at firstHash
  exact (Option.some.inj firstHash).symm

/-! ### The kept messages and their UID headers -/

def MailmboxFolder.pairs (folder : MailmboxFolder) : List (MailmboxMsgInfo × UInt32) :=
  folder.infos.zip ((messagesFrom 0 folder.mbMapping).map (·.2))

theorem MailmboxFolder.Laid.pairs_fst {folder : MailmboxFolder} (laid : folder.Laid) :
    folder.pairs.map (·.1) = folder.infos := by
  have lengths := congrArg List.length laid.places
  rw [List.length_map, List.length_map] at lengths
  apply List.map_fst_zip
  rw [List.length_map, lengths]

theorem MailmboxFolder.Laid.pairs_messages {folder : MailmboxFolder} (laid : folder.Laid) :
    folder.pairs.map (fun pair => (pair.1.toMsgPlace, pair.2)) = messagesFrom 0 folder.mbMapping := by
  have zipped : folder.pairs.map (fun pair => (pair.1.toMsgPlace, pair.2)) =
      (folder.infos.map (·.toMsgPlace)).zip ((messagesFrom 0 folder.mbMapping).map (·.2)) := by
    rw [MailmboxFolder.pairs, List.zip_map_left]
    rfl
  rw [zipped, laid.places, List.zip_map']
  simp

theorem MailmboxFolder.Laid.pairs_kept {folder : MailmboxFolder} (laid : folder.Laid) :
    (folder.pairs.filter fun pair => !pair.1.msgDeleted).map (·.1) = folder.kept := by
  rw [MailmboxFolder.kept, ← laid.pairs_fst, List.filter_map]
  rfl

theorem zip_written {infos : List MailmboxMsgInfo} {messages : List (MsgPlace × UInt32)}
    (written : List.Forall₂ (fun info (message : MsgPlace × UInt32) =>
      info.msgWrittenUid = true → info.msgUid = message.2) infos messages) :
    ∀ pair ∈ infos.zip (messages.map (·.2)), pair.1.msgWrittenUid = true → pair.1.msgUid = pair.2 := by
  induction written with
  | nil => nofun
  | cons first _ ih =>
      intro pair member
      rcases List.mem_cons.mp member with rfl | member
      · exact first
      · exact ih pair member

theorem MailmboxFolder.Laid.kept_contents {folder : MailmboxFolder} (laid : folder.Laid)
    (safe : folder.SafePieces folder.kept) :
    List.Forall₂ folder.KeptAs (folder.pairs.filter fun pair => !pair.1.msgDeleted)
      (contentsFrom (folder.pieces folder.kept)) := by
  have mapping : folder.mbMapping = [] ++ folder.mbMapping := rfl
  have contents := (pieces_contents mapping laid.pairs_messages (laid.pairs_kept.symm ▸ safe)).2
  rwa [laid.pairs_kept] at contents

theorem zipWith_keptAs {folder : MailmboxFolder} {pairs : List (MailmboxMsgInfo × UInt32)}
    {contents : List (UInt32 × List UInt8)} (keptAs : List.Forall₂ folder.KeptAs pairs contents) :
    List.zipWith (fun uid content => (uid, (Except.ok (writeFixedMessage content.2 none) :
        Except MailmboxError (List UInt8)))) ((pairs.map (·.1)).map (·.msgUid)) contents =
      (pairs.map (·.1)).map fun info =>
        (info.msgUid, .ok (writeFixedMessage (info.toMsgPlace.data folder.mbMapping) none)) := by
  induction keptAs with
  | nil => rfl
  | cons first _ ih =>
      simp only [List.map_cons, List.zipWith_cons_cons]
      rw [first.2]
      exact congrArg _ ih

theorem headers_keptAs {folder : MailmboxFolder} {pairs : List (MailmboxMsgInfo × UInt32)}
    {contents : List (UInt32 × List UInt8)} (keptAs : List.Forall₂ folder.KeptAs pairs contents) :
    contents.map (·.1) = pairs.map fun pair => if folder.addsUid pair.1 then pair.1.msgUid else pair.2 := by
  induction keptAs with
  | nil => rfl
  | cons first _ ih => rw [List.map_cons, List.map_cons, first.1, ih]

/-- The folder that expunging leaves, when there is something to write. -/
def MailmboxFolder.expunged (folder : MailmboxFolder) : MailmboxFolder :=
  { mailmboxParse { folder with mbMapping := folder.pieces folder.kept } with mbChanged := false, mbDeletedCount := 0 }

def MailmboxFolder.nothingToDo (folder : MailmboxFolder) : Prop :=
  (folder.mbMaxUid ≤ folder.mbWrittenUid ∨ folder.mbNoUid = true) ∧ folder.mbChanged = false

theorem mailmboxExpungeNoLock_expunged {folder : MailmboxFolder} (laid : folder.Laid)
    (writable : folder.mbReadOnly = false) (work : ¬ folder.nothingToDo) (nonempty : folder.kept ≠ [])
    (safe : folder.SafePieces folder.kept) : mailmboxExpungeNoLock folder = .ok folder.expunged := by
  rw [MailmboxFolder.nothingToDo] at work
  rw [mailmboxExpungeNoLock, if_neg (by rw [writable]; decide), if_neg, mailmboxExpungeToFileNoLock_pieces laid nonempty safe]
  · rfl
  · simpa using work

theorem mailmboxExpungeNoLock_same {folder : MailmboxFolder} (writable : folder.mbReadOnly = false)
    (nothing : folder.nothingToDo) : mailmboxExpungeNoLock folder = .ok folder := by
  rw [MailmboxFolder.nothingToDo] at nothing
  rw [mailmboxExpungeNoLock, if_neg (by rw [writable]; decide), if_pos]
  simpa using nothing

theorem MailmboxFolder.Laid.listing_kept {folder : MailmboxFolder} (laid : folder.Laid) :
    folder.listing folder.kept = folder.kept.map fun info =>
      (info.msgUid, .ok (writeFixedMessage (info.toMsgPlace.data folder.mbMapping) none)) := by
  apply laid.consistent.listing
  · exact fun info member => List.mem_of_mem_filter member
  · intro info member
    simpa using List.of_mem_filter member

/-- The kept messages come back under the UIDs that the parser gives to their UID headers. -/
theorem MailmboxFolder.Laid.expunged_listing {folder : MailmboxFolder} (laid : folder.Laid)
    (safe : folder.SafePieces folder.kept)
    (fit : UidsFit folder.mbWrittenUid ((contentsFrom (folder.pieces folder.kept)).map (·.1)))
    (sameUids : parsedUids folder.mbWrittenUid ((contentsFrom (folder.pieces folder.kept)).map (·.1)) =
      folder.kept.map (·.msgUid)) :
    folder.expunged.Consistent ∧ folder.expunged.listing folder.expunged.infos = folder.listing folder.kept := by
  obtain ⟨consistent, listing⟩ := mailmboxParse_listing { folder with mbMapping := folder.pieces folder.kept } fit
  refine ⟨⟨consistent.nodup, consistent.below, consistent.indexed, consistent.hashed, consistent.nonzero,
    consistent.highest⟩, ?_⟩
  have zipped := zipWith_keptAs (laid.kept_contents safe)
  rw [laid.pairs_kept] at zipped
  have same : folder.expunged.listing folder.expunged.infos =
      (mailmboxParse { folder with mbMapping := folder.pieces folder.kept }).listing
        (mailmboxParse { folder with mbMapping := folder.pieces folder.kept }).infos := rfl
  rw [same, listing, laid.listing_kept]
  change List.zipWith _ (parsedUids folder.mbWrittenUid _) _ = _
  rw [sameUids]
  exact zipped

/-- With UID headers in the file every kept message has its own. -/
theorem MailmboxFolder.Laid.kept_headers {folder : MailmboxFolder} (laid : folder.Laid)
    (uids : folder.mbNoUid = false) (safe : folder.SafePieces folder.kept) :
    (contentsFrom (folder.pieces folder.kept)).map (·.1) = folder.kept.map (·.msgUid) := by
  have written := zip_written laid.written
  have each : ∀ pair ∈ folder.pairs.filter (fun pair => !pair.1.msgDeleted),
      (if folder.addsUid pair.1 then pair.1.msgUid else pair.2) = pair.1.msgUid := by
    intro pair member
    cases own : pair.1.msgWrittenUid with
    | true =>
        rw [if_neg (by simp [MailmboxFolder.addsUid, own])]
        exact (written pair (List.mem_of_mem_filter member) own).symm
    | false => rw [if_pos (by simp [MailmboxFolder.addsUid, own, uids])]
  rw [headers_keptAs (laid.kept_contents safe), List.map_congr_left each, ← laid.pairs_kept, List.map_map]
  rfl

theorem MailmboxFolder.Laid.kept_uids {folder : MailmboxFolder} (laid : folder.Laid) :
    (folder.kept.map (·.msgUid)).Nodup ∧ ∀ uid ∈ folder.kept.map (·.msgUid), uid ≠ 0 := by
  refine ⟨laid.consistent.uids_nodup.sublist (List.filter_sublist.map _), fun uid member => ?_⟩
  obtain ⟨info, listed, rfl⟩ := List.mem_map.mp member
  obtain ⟨address, inTab, rfl⟩ := List.mem_map.mp (List.mem_of_mem_filter listed)
  exact laid.consistent.nonzero address inTab

theorem MailmboxFolder.Laid.expunged_uids {folder : MailmboxFolder} (laid : folder.Laid)
    (uids : folder.mbNoUid = false) (safe : folder.SafePieces folder.kept) :
    folder.expunged.Consistent ∧ folder.expunged.listing folder.expunged.infos = folder.listing folder.kept := by
  have headers := laid.kept_headers uids safe
  obtain ⟨nodup, nonzero⟩ := laid.kept_uids
  obtain ⟨fit, same⟩ := uidsFit_of_named folder.mbWrittenUid nodup nonzero
  exact laid.expunged_listing safe (headers.symm ▸ fit) (headers.symm ▸ same)

/-! ### Folders that have been opened, and messages that have been deleted -/

theorem freshInfos_written {infos : List MailmboxMsgInfo} {earlier messages : List (MsgPlace × UInt32)}
    (written : List.Forall₂ (fun info (message : MsgPlace × UInt32) =>
      (info.msgWrittenUid = true → info.msgUid ≠ 0 ∧ info.msgUid = message.2)) infos earlier) :
    List.Forall₂ (fun info (message : MsgPlace × UInt32) =>
      (info.msgWrittenUid = true → info.msgUid ≠ 0 ∧ info.msgUid = message.2))
      (freshInfos infos messages) (earlier ++ messages) := by
  induction messages generalizing infos earlier with
  | nil => simpa [freshInfos] using written
  | cons found messages ih =>
      have first : (freshInfo infos found).msgWrittenUid = true →
          (freshInfo infos found).msgUid ≠ 0 ∧ (freshInfo infos found).msgUid = found.2 := by
        intro own
        have named : (if found.2 ∈ infos.map (·.msgUid) then 0 else found.2) ≠ 0 := of_decide_eq_true own
        refine ⟨named, ?_⟩
        change (if found.2 ∈ infos.map (·.msgUid) then 0 else found.2) = found.2
        split_ifs at named ⊢ with known
        · contradiction
        · rfl
      have longer := ih (List.rel_append written (List.Forall₂.cons first .nil))
      rwa [List.append_assoc, List.singleton_append] at longer

theorem numberInfos_written {maxUid : UInt32} {infos : List MailmboxMsgInfo} {messages : List (MsgPlace × UInt32)}
    (written : List.Forall₂ (fun info (message : MsgPlace × UInt32) =>
      (info.msgWrittenUid = true → info.msgUid ≠ 0 ∧ info.msgUid = message.2)) infos messages) :
    List.Forall₂ (fun info (message : MsgPlace × UInt32) => info.msgWrittenUid = true → info.msgUid = message.2)
      (numberInfos maxUid infos) messages := by
  induction written generalizing maxUid with
  | nil => exact .nil
  | @cons info message infos messages first _ ih =>
      rw [numberInfos]
      split_ifs with named
      · exact .cons (fun own => (first own).2) ih
      · exact .cons (fun own => absurd (first own).1 named) ih

theorem mailmboxParse_laid (folder : MailmboxFolder)
    (fit : UidsFit folder.mbWrittenUid ((contentsFrom folder.mbMapping).map (·.1))) :
    (mailmboxParse folder).Laid where
  consistent := (mailmboxParse_listing folder fit).1
  places := by
    rw [mailmboxParse_places, (mailmboxParse_parsed folder).same.mapping]
  written := by
    have parsed := mailmboxParse_parsed folder
    rw [parsed.infos, parsed.same.mapping]
    exact numberInfos_written (freshInfos_written .nil)

/-- Deleting the messages of a list of UIDs; a UID that is not in the folder is an error
that leaves the folder as it is. -/
def deleteAll (folder : MailmboxFolder) (uids : List UInt32) : MailmboxFolder :=
  uids.foldl (fun folder uid => (mailmboxDeleteMsg folder uid).toOption.getD folder) folder

structure Deleted (before after : MailmboxFolder) : Prop where
  mapping : after.mbMapping = before.mbMapping
  noUid : after.mbNoUid = before.mbNoUid
  readOnly : after.mbReadOnly = before.mbReadOnly
  writtenUid : after.mbWrittenUid = before.mbWrittenUid
  maxUid : after.mbMaxUid = before.mbMaxUid
  hash : after.mbHash = before.mbHash
  tab : after.mbTab = before.mbTab
  allocated : after.allocated = before.allocated
  info : ∀ address, after.info address = { before.info address with msgDeleted := (after.info address).msgDeleted }

theorem Deleted.refl (folder : MailmboxFolder) : Deleted folder folder :=
  ⟨rfl, rfl, rfl, rfl, rfl, rfl, rfl, rfl, fun _ => rfl⟩

theorem Deleted.trans {first second third : MailmboxFolder} (early : Deleted first second) (late : Deleted second third) :
    Deleted first third where
  mapping := late.mapping.trans early.mapping
  noUid := late.noUid.trans early.noUid
  readOnly := late.readOnly.trans early.readOnly
  writtenUid := late.writtenUid.trans early.writtenUid
  maxUid := late.maxUid.trans early.maxUid
  hash := late.hash.trans early.hash
  tab := late.tab.trans early.tab
  allocated := late.allocated.trans early.allocated
  info address := by rw [late.info address, early.info address]

theorem mailmboxDeleteMsg_cases {folder after : MailmboxFolder} {uid : UInt32}
    (deleted : mailmboxDeleteMsg folder uid = .ok after) : Deleted folder after ∧ after.mbChanged = true := by
  rw [mailmboxDeleteMsg] at deleted
  split_ifs at deleted
  split at deleted
  · contradiction
  · rename_i address known
    dsimp only at deleted
    split_ifs at deleted
    cases deleted
    refine ⟨⟨rfl, rfl, rfl, rfl, rfl, rfl, rfl, rfl, fun other => ?_⟩, rfl⟩
    by_cases same : other = address
    · simp [MailmboxFolder.infoSet, same]
    · simp [MailmboxFolder.infoSet, same]

theorem deleteAll_deleted (folder : MailmboxFolder) (uids : List UInt32) :
    Deleted folder (deleteAll folder uids) ∧
      ((deleteAll folder uids).mbChanged = false → deleteAll folder uids = folder) := by
  induction uids generalizing folder with
  | nil => exact ⟨Deleted.refl folder, fun _ => rfl⟩
  | cons uid uids ih =>
      have step : deleteAll folder (uid :: uids) =
          deleteAll ((mailmboxDeleteMsg folder uid).toOption.getD folder) uids := rfl
      rw [step]
      cases result : mailmboxDeleteMsg folder uid with
      | error error => exact ih folder
      | ok after =>
          obtain ⟨first, changed⟩ := mailmboxDeleteMsg_cases result
          obtain ⟨others, unchanged⟩ := ih after
          refine ⟨first.trans others, fun unmarked => ?_⟩
          have same : deleteAll after uids = after := unchanged unmarked
          change (deleteAll after uids).mbChanged = false at unmarked
          rw [same, changed] at unmarked
          contradiction

theorem Deleted.consistent {before after : MailmboxFolder} (deleted : Deleted before after)
    (consistent : before.Consistent) : after.Consistent where
  nodup := deleted.tab ▸ consistent.nodup
  below := by
    rw [deleted.tab, deleted.allocated]
    exact consistent.below
  indexed := by
    intro index address found
    rw [deleted.tab] at found
    rw [deleted.info]
    exact consistent.indexed index address found
  hashed := by
    intro uid address
    rw [deleted.hash, deleted.tab, deleted.info]
    exact consistent.hashed uid address
  nonzero := by
    intro address member
    rw [deleted.info]
    exact consistent.nonzero address (deleted.tab ▸ member)
  highest := by
    intro address member
    rw [deleted.info, deleted.maxUid]
    exact consistent.highest address (deleted.tab ▸ member)

theorem Deleted.map_infos {before after : MailmboxFolder} (deleted : Deleted before after) {α : Type}
    (field : MailmboxMsgInfo → α) (other : ∀ info flag, field { info with msgDeleted := flag } = field info) :
    after.infos.map field = before.infos.map field := by
  rw [MailmboxFolder.infos, MailmboxFolder.infos, deleted.tab, List.map_map, List.map_map]
  apply List.map_congr_left
  intro address _
  rw [Function.comp_apply, Function.comp_apply, deleted.info, other]

theorem Deleted.laid {before after : MailmboxFolder} (deleted : Deleted before after) (laid : before.Laid) :
    after.Laid where
  consistent := deleted.consistent laid.consistent
  places := by
    rw [deleted.mapping, ← laid.places]
    exact deleted.map_infos _ fun _ _ => rfl
  written := by
    have written := laid.written
    rw [MailmboxFolder.infos, List.forall₂_map_left_iff] at written ⊢
    rw [deleted.mapping, deleted.tab]
    refine written.imp fun address message own => ?_
    rw [deleted.info]
    exact own

/-! ### Folders without UID headers -/

/-- Deleting the first message does not change the number of the second one: it was not
numbered by the parser itself, or nothing that it had goes to the second one. -/
def KeepsNumber (first second : MailmboxMsgInfo × UInt32) : Prop :=
  first.1.msgDeleted = true → second.1.msgDeleted = false → second.1.msgWrittenUid = false →
    first.1.msgWrittenUid = true ∧ second.2 ≠ first.1.msgUid

theorem numberUids_cons (maxUid uid : UInt32) (uids : List UInt32) :
    numberUids maxUid (uid :: uids) =
      (if uid ≠ 0 then uid else maxUid + 1) :: numberUids (if uid ≠ 0 then maxUid else maxUid + 1) uids := by
  rw [numberUids]
  split_ifs <;> rfl

theorem claimedUids_cons (seen : List UInt32) (uid : UInt32) (uids : List UInt32) :
    claimedUids seen (uid :: uids) =
      (if uid ∈ seen then 0 else uid) :: claimedUids (seen ++ [if uid ∈ seen then 0 else uid]) uids := rfl

/-- Where the numbering of the kept messages alone is: `seen` are the UIDs before in the
whole list and `keptSeen` those of kept messages. -/
structure KeptState (pairs : List (MailmboxMsgInfo × UInt32)) (seen keptSeen : List UInt32) (maxUid keptMax : UInt32) :
    Prop where
  sub : ∀ uid ∈ keptSeen, uid ∈ seen
  lost : ∀ pair ∈ pairs, pair.1.msgDeleted = false → pair.1.msgWrittenUid = false → pair.2 ≠ 0 → pair.2 ∈ seen →
    pair.2 ∈ keptSeen
  count : keptMax = maxUid ∨ ∀ pair ∈ pairs, pair.1.msgDeleted = false → pair.1.msgWrittenUid = true

/-- A deleted message: no message that the parser numbers repeats its UID, and if it had
such a number itself, none follows. -/
theorem KeptState.delete {pair : MailmboxMsgInfo × UInt32} {pairs : List (MailmboxMsgInfo × UInt32)}
    {seen keptSeen : List UInt32} {maxUid keptMax claimed : UInt32}
    (state : KeptState (pair :: pairs) seen keptSeen maxUid keptMax) (first : ∀ other ∈ pairs, KeepsNumber pair other)
    (deleted : pair.1.msgDeleted = true) (uid_eq : pair.1.msgUid = if claimed ≠ 0 then claimed else maxUid + 1)
    (flag_eq : pair.1.msgWrittenUid = decide (claimed ≠ 0)) :
    KeptState pairs (seen ++ [claimed]) keptSeen (if claimed ≠ 0 then maxUid else maxUid + 1) keptMax where
  sub uid member := List.mem_append_left _ (state.sub uid member)
  lost := by
    intro other member kept temporary nonzero seenUid
    rcases List.mem_append.mp seenUid with early | here
    · exact state.lost other (.tail _ member) kept temporary nonzero early
    · have fresh := first other member deleted kept temporary
      rw [List.mem_singleton] at here
      rw [if_pos (here ▸ nonzero)] at uid_eq
      exact absurd (here.trans uid_eq.symm) fresh.2
  count := by
    by_cases named : claimed ≠ 0
    · rw [if_pos named]
      exact state.count.imp_right fun all other member => all other (.tail _ member)
    · right
      intro other member kept
      by_contra temporary
      have fresh := first other member deleted kept (Bool.eq_false_iff.mpr temporary)
      rw [fresh.1] at flag_eq
      exact named (of_decide_eq_true flag_eq.symm)

theorem KeptState.keep {pair : MailmboxMsgInfo × UInt32} {pairs : List (MailmboxMsgInfo × UInt32)}
    {seen keptSeen : List UInt32} {maxUid keptMax : UInt32}
    (state : KeptState (pair :: pairs) seen keptSeen maxUid keptMax) (claimed : UInt32) :
    KeptState pairs (seen ++ [claimed]) (keptSeen ++ [claimed]) (if claimed ≠ 0 then maxUid else maxUid + 1)
      (if claimed ≠ 0 then keptMax else keptMax + 1) where
  sub := by
    intro uid member
    rcases List.mem_append.mp member with early | here
    · exact List.mem_append_left _ (state.sub uid early)
    · exact List.mem_append_right _ here
  lost := by
    intro other member kept temporary nonzero seenUid
    rcases List.mem_append.mp seenUid with early | here
    · exact List.mem_append_left _ (state.lost other (.tail _ member) kept temporary nonzero early)
    · exact List.mem_append_right _ here
  count := state.count.imp (fun same => by rw [same]) fun all other member => all other (.tail _ member)

theorem KeptState.same {pair : MailmboxMsgInfo × UInt32} {pairs : List (MailmboxMsgInfo × UInt32)}
    {seen keptSeen : List UInt32} {maxUid keptMax claimed : UInt32}
    (state : KeptState (pair :: pairs) seen keptSeen maxUid keptMax) (kept : pair.1.msgDeleted = false)
    (claimed_eq : (if pair.2 ∈ seen then 0 else pair.2) = claimed)
    (flag_eq : pair.1.msgWrittenUid = decide (claimed ≠ 0)) :
    (if pair.2 ∈ keptSeen then 0 else pair.2) = claimed ∧ (claimed = 0 → keptMax = maxUid) := by
  constructor
  · by_cases known : pair.2 ∈ seen
    · rw [if_pos known] at claimed_eq
      subst claimed_eq
      by_cases zero : pair.2 = 0
      · simp [zero]
      · exact if_pos (state.lost pair (.head _) kept (by simpa using flag_eq) zero known)
    · rw [if_neg known] at claimed_eq
      rw [if_neg fun member => known (state.sub _ member)]
      exact claimed_eq
  · intro zero
    rcases state.count with same | all
    · exact same
    · have own := all pair (.head _) kept
      rw [flag_eq, zero] at own
      contradiction

theorem numberUids_kept {pairs : List (MailmboxMsgInfo × UInt32)} (stable : pairs.Pairwise KeepsNumber)
    {seen keptSeen : List UInt32} {maxUid keptMax : UInt32}
    (uids : pairs.map (·.1.msgUid) = numberUids maxUid (claimedUids seen (pairs.map (·.2))))
    (flags : pairs.map (·.1.msgWrittenUid) = (claimedUids seen (pairs.map (·.2))).map fun uid => decide (uid ≠ 0))
    (state : KeptState pairs seen keptSeen maxUid keptMax) :
    numberUids keptMax (claimedUids keptSeen ((pairs.filter fun pair => !pair.1.msgDeleted).map (·.2))) =
        (pairs.filter fun pair => !pair.1.msgDeleted).map (·.1.msgUid) ∧
      (claimedUids keptSeen ((pairs.filter fun pair => !pair.1.msgDeleted).map (·.2))).count 0 ≤
        (claimedUids seen (pairs.map (·.2))).count 0 := by
  induction pairs generalizing seen keptSeen maxUid keptMax with
  | nil => exact ⟨rfl, Nat.zero_le _⟩
  | cons pair pairs ih =>
      obtain ⟨first, stable⟩ := List.pairwise_cons.mp stable
      rw [List.map_cons, List.map_cons, claimedUids_cons] at uids flags
      rw [List.map_cons, claimedUids_cons]
      rw [numberUids_cons, List.cons.injEq] at uids
      rw [List.map_cons, List.cons.injEq] at flags
      obtain ⟨uid_eq, uids⟩ := uids
      obtain ⟨flag_eq, flags⟩ := flags
      generalize claimed_eq : (if pair.2 ∈ seen then 0 else pair.2) = claimed at *
      cases deleted : pair.1.msgDeleted with
      | true =>
          rw [List.filter_cons_of_neg (by simp [deleted])]
          obtain ⟨numbers, counts⟩ := ih stable uids flags (state.delete first deleted uid_eq flag_eq)
          exact ⟨numbers, counts.trans List.count_le_count_cons⟩
      | false =>
          rw [List.filter_cons_of_pos (by simp [deleted]), List.map_cons, List.map_cons, claimedUids_cons]
          obtain ⟨same, sameMax⟩ := state.same deleted claimed_eq flag_eq
          obtain ⟨numbers, counts⟩ := ih stable uids flags (state.keep claimed)
          rw [same, numberUids_cons, numbers, uid_eq, List.count_cons, List.count_cons]
          refine ⟨?_, by omega⟩
          congr 1
          split_ifs with named
          · rfl
          · rw [sameMax (not_not.mp named)]

theorem highestUidOf_ge (writtenUid : UInt32) (uids : List UInt32) :
    writtenUid ≤ highestUidOf writtenUid uids ∧ ∀ uid ∈ uids, uid ≤ highestUidOf writtenUid uids := by
  induction uids generalizing writtenUid with
  | nil => exact ⟨UInt32.le_refl _, nofun⟩
  | cons uid uids ih =>
      obtain ⟨start, others⟩ := ih (higherUid uid writtenUid)
      refine ⟨UInt32.le_trans (le_higherUid_right _ _) start, fun other member => ?_⟩
      rcases List.mem_cons.mp member with rfl | member
      · exact UInt32.le_trans (le_higherUid_left _ _) start
      · exact others other member

theorem highestUidOf_eq {writtenUid : UInt32} {uids : List UInt32} (lower : ∀ uid ∈ uids, uid ≤ writtenUid) :
    highestUidOf writtenUid uids = writtenUid := by
  induction uids with
  | nil => rfl
  | cons uid uids ih =>
      have first : higherUid uid writtenUid = writtenUid :=
        if_neg (UInt32.not_lt.mpr (lower uid (.head _)))
      rw [highestUidOf, List.foldl_cons, first]
      exact ih fun other member => lower other (.tail _ member)

theorem mem_claimedUids {seen uids : List UInt32} {uid : UInt32} (member : uid ∈ claimedUids seen uids) :
    uid = 0 ∨ uid ∈ uids := by
  induction uids generalizing seen with
  | nil => exact absurd member List.not_mem_nil
  | cons first uids ih =>
      rcases List.mem_cons.mp member with here | behind
      · split_ifs at here
        · exact .inl here
        · exact .inr (here ▸ .head _)
      · exact (ih behind).imp_right fun later => .tail _ later

theorem claimed_or_seen (seen : List UInt32) {uids : List UInt32} {uid : UInt32} (member : uid ∈ uids) :
    uid ∈ seen ∨ uid ∈ claimedUids seen uids := by
  induction uids generalizing seen with
  | nil => exact absurd member List.not_mem_nil
  | cons first uids ih =>
      rcases List.mem_cons.mp member with rfl | behind
      · by_cases known : uid ∈ seen
        · exact .inl known
        · rw [claimedUids_cons, if_neg known]
          exact .inr (.head _)
      · rcases ih (seen ++ [if first ∈ seen then 0 else first]) behind with early | later
        · rcases List.mem_append.mp early with known | here
          · exact .inl known
          · rw [claimedUids_cons, List.mem_singleton.mp here]
            exact .inr (.head _)
        · exact .inr (.tail _ later)

theorem header_le_highest {writtenUid uid : UInt32} {headers : List UInt32} (member : uid ∈ headers) :
    uid ≤ highestUidOf writtenUid (claimedUids [] headers) := by
  rcases claimed_or_seen [] member with seen | claimed
  · exact absurd seen List.not_mem_nil
  · exact (highestUidOf_ge _ _).2 uid claimed

theorem mailmboxParse_flags (folder : MailmboxFolder) :
    (mailmboxParse folder).infos.map (·.msgWrittenUid) =
      (claimedUids [] ((contentsFrom folder.mbMapping).map (·.1))).map fun uid => decide (uid ≠ 0) := by
  have numbered : ∀ (maxUid : UInt32) (infos : List MailmboxMsgInfo),
      (numberInfos maxUid infos).map (·.msgWrittenUid) = infos.map (·.msgWrittenUid) := by
    intro maxUid infos
    induction infos generalizing maxUid with
    | nil => rfl
    | cons info infos ih =>
        rw [numberInfos]
        split_ifs <;> simp [ih]
  have fresh : ∀ (messages : List (MsgPlace × UInt32)) (infos : List MailmboxMsgInfo),
      (∀ info ∈ infos, info.msgWrittenUid = decide (info.msgUid ≠ 0)) →
        ∀ info ∈ freshInfos infos messages, info.msgWrittenUid = decide (info.msgUid ≠ 0) := by
    intro messages
    induction messages with
    | nil => exact fun infos own => own
    | cons found messages ih =>
        intro infos own
        apply ih
        intro info member
        rcases List.mem_append.mp member with early | last
        · exact own info early
        · rw [List.mem_singleton.mp last]
          rfl
  rw [(mailmboxParse_parsed folder).infos, numbered, ← fileInfos_uids, List.map_map]
  exact List.map_congr_left fun info member => fresh _ [] (by simp) info member

theorem expunged_noUid {start folder : MailmboxFolder} (deleted : Deleted (mailmboxParse start) folder)
    (noUid : folder.mbNoUid = true) (fit : UidsFit start.mbWrittenUid ((contentsFrom start.mbMapping).map (·.1)))
    (safe : folder.SafePieces folder.kept) (stable : folder.pairs.Pairwise KeepsNumber) :
    folder.expunged.Consistent ∧ folder.expunged.listing folder.expunged.infos = folder.listing folder.kept := by
  have laid := deleted.laid (mailmboxParse_laid start fit)
  have parsed := mailmboxParse_parsed start
  have mapping : folder.mbMapping = start.mbMapping := deleted.mapping.trans parsed.same.mapping
  have headers_eq : folder.pairs.map (·.2) = (contentsFrom start.mbMapping).map (·.1) := by
    have contents := messagesFrom_contents [] start.mbMapping
    have lengths := congrArg List.length laid.places
    rw [List.length_map, List.length_map] at lengths
    rw [MailmboxFolder.pairs, List.map_snd_zip (by rw [List.length_map, lengths]), mapping, ← contents, List.map_map]
    rfl
  have uids : folder.pairs.map (·.1.msgUid) = parsedUids start.mbWrittenUid (folder.pairs.map (·.2)) := by
    rw [headers_eq, ← mailmboxParse_uids, ← deleted.map_infos _ fun _ _ => rfl, ← laid.pairs_fst, List.map_map]
    rfl
  have flags : folder.pairs.map (·.1.msgWrittenUid) =
      (claimedUids [] (folder.pairs.map (·.2))).map fun uid => decide (uid ≠ 0) := by
    rw [headers_eq, ← mailmboxParse_flags, ← deleted.map_infos _ fun _ _ => rfl, ← laid.pairs_fst, List.map_map]
    rfl
  have writtenUid : folder.mbWrittenUid = highestUidOf start.mbWrittenUid (claimedUids [] (folder.pairs.map (·.2))) := by
    rw [deleted.writtenUid, parsed.writtenUid, highestOf_eq, fileInfos_uids, headers_eq]
  have kept_headers : (contentsFrom (folder.pieces folder.kept)).map (·.1) =
      (folder.pairs.filter fun pair => !pair.1.msgDeleted).map (·.2) := by
    rw [headers_keptAs (laid.kept_contents safe)]
    exact List.map_congr_left fun pair _ => if_neg (by simp [MailmboxFolder.addsUid, noUid])
  have state : KeptState folder.pairs [] [] folder.mbWrittenUid folder.mbWrittenUid :=
    ⟨fun _ seen => seen, fun _ _ _ _ _ seen => seen, .inl rfl⟩
  rw [parsedUids, ← writtenUid] at uids
  obtain ⟨numbers, counts⟩ := numberUids_kept stable uids flags state
  have highest : highestUidOf folder.mbWrittenUid
      (claimedUids [] ((folder.pairs.filter fun pair => !pair.1.msgDeleted).map (·.2))) = folder.mbWrittenUid := by
    apply highestUidOf_eq
    intro uid member
    rcases mem_claimedUids member with rfl | listed
    · exact UInt32.le_iff_toNat_le.mpr (Nat.zero_le _)
    · rw [writtenUid]
      exact header_le_highest ((List.filter_sublist.map _).subset listed)
  apply laid.expunged_listing safe
  · rw [kept_headers, UidsFit, highest]
    rw [← headers_eq, UidsFit, ← writtenUid] at fit
    omega
  · rw [kept_headers, parsedUids, highest, numbers, ← laid.pairs_kept, List.map_map]
    rfl

/-- The folder holds the messages that were not deleted, in order, under their UIDs. -/
def ExpungeKeeps (folder : MailmboxFolder) : Prop :=
  ∃ result, mailmboxExpunge folder = .ok result ∧ result.listing result.infos = folder.listing folder.kept

structure MailmboxFolder.ExpungeSafe (folder : MailmboxFolder) : Prop where
  nonempty : folder.kept ≠ []
  pieces : folder.SafePieces folder.kept
  numbers : folder.mbNoUid = true → folder.pairs.Pairwise KeepsNumber

/-- Expunging an opened folder keeps the messages that are not deleted, their UIDs and what
is fetched of them, unless the UIDs have wrapped, or no message is left, or a message that
is kept cannot be written where the new file has it. -/
theorem mailmboxExpunge_keeps (file : List UInt8) (noUid : Bool) (defaultWrittenUid : UInt32) (uids : List UInt32)
    (fit : UidsFit defaultWrittenUid ((contentsFrom file).map (·.1)))
    (safe : (deleteAll (mailmboxInit file false noUid defaultWrittenUid) uids).nothingToDo ∨
      (deleteAll (mailmboxInit file false noUid defaultWrittenUid) uids).ExpungeSafe) :
    ExpungeKeeps (deleteAll (mailmboxInit file false noUid defaultWrittenUid) uids) := by
  obtain ⟨deleted, unchanged⟩ := deleteAll_deleted (mailmboxInit file false noUid defaultWrittenUid) uids
  rw [mailmboxInit] at deleted unchanged safe ⊢
  generalize start_eq : MailmboxFolder.mk false noUid false 0 file defaultWrittenUid 0 (fun _ => none) []
    (fun _ => ⟨⟨0, 0, 0, 0, 0, 0, 0, 0⟩, 0, 0, false, false⟩) 0 = start at *
  have fit_start : UidsFit start.mbWrittenUid ((contentsFrom start.mbMapping).map (·.1)) := by
    rw [← start_eq]
    exact fit
  have parsed := mailmboxParse_parsed start
  have laid := deleted.laid (mailmboxParse_laid start fit_start)
  generalize deleteAll (mailmboxParse start) uids = folder at *
  have writable : folder.mbReadOnly = false := by
    rw [deleted.readOnly, parsed.same.readOnly, ← start_eq]
  have unlocked : mailmboxExpunge folder = mailmboxExpungeNoLock folder := by
    rw [mailmboxExpunge, if_neg (by rw [writable]; decide)]
  rw [ExpungeKeeps, unlocked]
  by_cases nothing : folder.nothingToDo
  · refine ⟨folder, mailmboxExpungeNoLock_same writable nothing, ?_⟩
    have undeleted : ∀ info ∈ folder.infos, info.msgDeleted = false := by
      rw [unchanged nothing.2, parsed.infos]
      exact numberInfos_undeleted (freshInfos_undeleted nofun)
    rw [MailmboxFolder.kept, List.filter_eq_self.mpr fun info member => by rw [undeleted info member]; rfl]
  · have safe := safe.resolve_left nothing
    refine ⟨folder.expunged, mailmboxExpungeNoLock_expunged laid writable nothing safe.nonempty safe.pieces, ?_⟩
    cases mode : folder.mbNoUid with
    | false => exact (laid.expunged_uids mode safe.pieces).2
    | true => exact (expunged_noUid deleted mode fit_start safe.pieces (safe.numbers mode)).2

def twoMessages : List UInt8 :=
  fromPrefix ++ [LF, ascii 'K', ascii ':', LF, LF, ascii 'a', LF, LF] ++
    fromPrefix ++ [LF, ascii 'Z', ascii ':', LF, LF, ascii 'b', LF]

theorem mailmboxExpunge_keeps_second :
    ExpungeKeeps (deleteAll (mailmboxInit twoMessages false false 0) [1]) :=
  mailmboxExpunge_keeps twoMessages false 0 [1] (by decide +kernel)
    (.inr ⟨by decide +kernel, by decide +kernel, fun noUid => absurd noUid (by decide +kernel)⟩)

def headersOnly : List UInt8 := fromPrefix ++ [LF, ascii 'K', ascii ':', LF]

/-- The UID header at the end of the file loses its line end and becomes part of the message. -/
theorem mailmboxExpunge_cuts_uidHeader :
    ¬ ExpungeKeeps (deleteAll (mailmboxInit headersOnly false false 0) []) := by
  rintro ⟨result, expunged, same⟩
  have differs : (mailmboxExpunge (deleteAll (mailmboxInit headersOnly false false 0) [])).map
      (fun result => result.listing result.infos) ≠
        .ok ((deleteAll (mailmboxInit headersOnly false false 0) []).listing
          (deleteAll (mailmboxInit headersOnly false false 0) []).kept) := by
    decide +kernel
  apply differs
  rw [expunged, ← same]
  rfl

end Etpan.Mbox
