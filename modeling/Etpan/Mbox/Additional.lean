import Etpan.Mbox.ExpungeKeeps

namespace Etpan.Mbox

open Etpan.Data

/-! Messages that are parsed behind those that a folder already has. -/

def additional (folder : MailmboxFolder) (cur : Nat) : Parsing :=
  ⟨(folder.removeStale cur).reindex, ((folder.removeStale cur).reindex).highestUid,
    ((folder.removeStale cur).reindex).mbTab.length⟩

theorem foldl_update_none {folder : MailmboxFolder} (addresses : List Nat) (hash : UInt32 → Option Nat) (uid : UInt32) :
    addresses.foldl (fun hash address => Function.update hash (folder.info address).msgUid none) hash uid =
      if uid ∈ addresses.map fun address => (folder.info address).msgUid then none else hash uid := by
  induction addresses generalizing hash with
  | nil => rfl
  | cons address addresses ih =>
      rw [List.foldl_cons, ih, List.map_cons]
      by_cases own : uid = (folder.info address).msgUid
      · simp [own]
      · simp [own]

theorem reindex_msgUid (folder : MailmboxFolder) (address : Nat) :
    (folder.reindex.info address).msgUid = (folder.info address).msgUid := by
  rw [MailmboxFolder.reindex]
  dsimp only
  split_ifs <;> rfl

theorem highestUid_eq (folder : MailmboxFolder) :
    folder.highestUid = highestUidOf folder.mbWrittenUid (folder.infos.map (·.msgUid)) := by
  rw [MailmboxFolder.highestUid, highestUidOf, MailmboxFolder.infos, List.map_map, List.foldl_map]
  rfl

theorem MailmboxFolder.Consistent.additional {folder : MailmboxFolder} (consistent : folder.Consistent) (cur : Nat) :
    (additional folder cur).Valid := by
  have tab : ∀ address, address ∈ (Mbox.additional folder cur).folder.mbTab ↔
      address ∈ folder.mbTab ∧ folder.isStale cur address = false := by
    intro address
    simp [Mbox.additional, MailmboxFolder.reindex, MailmboxFolder.removeStale]
  have uid : ∀ address, ((Mbox.additional folder cur).folder.info address).msgUid = (folder.info address).msgUid :=
    fun address => reindex_msgUid (folder.removeStale cur) address
  have nodup : (Mbox.additional folder cur).folder.mbTab.Nodup := consistent.nodup.filter _
  refine ⟨nodup, ?_, ?_, ?_, ?_, ?_, le_rfl⟩
  · exact fun address member => consistent.below address ((tab address).mp member).1
  · intro index address found
    have member : address ∈ (folder.removeStale cur).mbTab := List.mem_of_getElem? found
    obtain ⟨bound, here⟩ := List.getElem?_eq_some_iff.mp found
    change (((folder.removeStale cur).reindex).info address).msgIndex = index
    rw [MailmboxFolder.reindex]
    dsimp only
    rw [if_pos member]
    change (Mbox.additional folder cur).folder.mbTab.idxOf address = index
    rw [← here]
    exact nodup.idxOf_getElem index bound
  · intro uid' address
    have hash : (Mbox.additional folder cur).folder.mbHash uid' =
        if uid' ∈ (folder.mbTab.filter (folder.isStale cur)).map fun address => (folder.info address).msgUid then none
        else folder.mbHash uid' := foldl_update_none _ _ _
    rw [hash, uid address, tab]
    split_ifs with stale
    · refine iff_of_false (by simp) ?_
      rintro ⟨⟨member, fresh⟩, rfl, -⟩
      obtain ⟨other, isStale, same⟩ := List.mem_map.mp stale
      obtain ⟨listed, old⟩ := List.mem_filter.mp isStale
      have known := (consistent.hashed _ other).mpr ⟨listed, same⟩
      rw [(consistent.hashed _ address).mpr ⟨member, rfl⟩, Option.some.injEq] at known
      rw [known, old] at fresh
      cases fresh
    · rw [consistent.hashed]
      constructor
      · rintro ⟨member, rfl⟩
        refine ⟨⟨member, ?_⟩, rfl, consistent.nonzero address member⟩
        by_contra old
        exact stale (List.mem_map_of_mem (List.mem_filter.mpr ⟨member, by simpa using old⟩))
      · rintro ⟨⟨member, -⟩, rfl, -⟩
        exact ⟨member, rfl⟩
  · intro address member
    change _ ≤ ((folder.removeStale cur).reindex).highestUid
    rw [highestUid_eq]
    exact (highestUidOf_ge _ _).2 _ (List.mem_map_of_mem (List.mem_map_of_mem member))
  · intro address member zero
    rw [uid] at zero
    exact absurd zero (consistent.nonzero address ((tab address).mp member).1)

/-! ### UIDs that are not known yet -/

def Climbs : UInt32 → List UInt32 → Prop
  | _, [] => True
  | maxUid, uid :: uids => (uid = 0 ∨ maxUid < uid) ∧ Climbs (higherUid uid maxUid) uids

theorem Parsing.Valid.unknown {parsing : Parsing} (valid : parsing.Valid) {uid : UInt32}
    (climbs : uid = 0 ∨ parsing.maxUid < uid) : parsing.folder.mbHash uid = none := by
  rcases climbs with rfl | higher
  · exact valid.noZero
  · cases known : parsing.folder.mbHash uid with
    | none => rfl
    | some address =>
        obtain ⟨member, rfl, -⟩ := (valid.hashed uid address).mp known
        exact absurd higher (UInt32.not_lt.mpr (valid.highest address member))

theorem Parsing.Valid.message_unknown {parsing : Parsing} (valid : parsing.Valid) {found : MsgPlace × UInt32}
    (climbs : found.2 = 0 ∨ parsing.maxUid < found.2) :
    (parsing.message found).folder.infos = parsing.folder.infos ++
        [{ mailmboxMsgInfoNew found.1 found.2 with msgIndex := parsing.folder.infos.length }] ∧
      (parsing.message found).maxUid = higherUid found.2 parsing.maxUid ∧
      (parsing.message found).firstIndex = parsing.firstIndex := by
  have unknown := valid.unknown climbs
  rw [Parsing.message, claimUid_unknown unknown]
  refine ⟨?_, rfl, rfl⟩
  simpa only [MailmboxFolder.infos, List.length_map] using (mailmboxMsgInfoUpdate_added found.1 unknown).infos valid.below

def addedInfos : Nat → List (MsgPlace × UInt32) → List MailmboxMsgInfo
  | _, [] => []
  | index, found :: messages =>
      { mailmboxMsgInfoNew found.1 found.2 with msgIndex := index } :: addedInfos (index + 1) messages

theorem Parsing.Valid.messages_unknown {parsing : Parsing} (valid : parsing.Valid) {messages : List (MsgPlace × UInt32)}
    (climbs : Climbs parsing.maxUid (messages.map (·.2))) :
    (messages.foldl Parsing.message parsing).folder.infos =
        parsing.folder.infos ++ addedInfos parsing.folder.infos.length messages ∧
      (messages.foldl Parsing.message parsing).maxUid = highestUidOf parsing.maxUid (messages.map (·.2)) ∧
      (messages.foldl Parsing.message parsing).firstIndex = parsing.firstIndex := by
  induction messages generalizing parsing with
  | nil => exact ⟨by simp [addedInfos], rfl, rfl⟩
  | cons found messages ih =>
      obtain ⟨first, behind⟩ := climbs
      obtain ⟨infos, maxUid, firstIndex⟩ := valid.message_unknown first
      obtain ⟨later_infos, later_maxUid, later_firstIndex⟩ := ih (valid.message found) (by rwa [maxUid])
      refine ⟨?_, ?_, later_firstIndex.trans firstIndex⟩
      · rw [List.foldl_cons, later_infos, infos, List.append_assoc, List.length_append, List.length_singleton]
        rfl
      · rw [List.foldl_cons, later_maxUid, maxUid]
        rfl

/-- The counter after the numbering, which gives one number to each message without a UID. -/
theorem Parsing.Valid.number_maxUid {parsing : Parsing} (valid : parsing.Valid)
    (room : parsing.maxUid.toNat + parsing.folder.waiting (parsing.folder.mbTab.drop parsing.firstIndex) < 2 ^ 32) :
    parsing.number.mbMaxUid.toNat =
      parsing.maxUid.toNat + parsing.folder.waiting (parsing.folder.mbTab.drop parsing.firstIndex) := by
  have counted : Counted (parsing.folder, parsing.maxUid) := ⟨valid.hashed, valid.highest⟩
  have nodup : (parsing.folder.mbTab.drop parsing.firstIndex).Nodup := valid.nodup.sublist (List.drop_sublist _ _)
  exact (counted.attributeUids nodup (fun _ => List.mem_of_mem_drop) room).2.1

theorem waiting_infos (folder : MailmboxFolder) (count : Nat) :
    folder.waiting (folder.mbTab.drop count) = ((folder.infos.drop count).map (·.msgUid)).count 0 := by
  rw [MailmboxFolder.waiting, List.count, List.countP_map, MailmboxFolder.infos, ← List.map_drop, List.countP_map]
  apply List.countP_congr
  intro address member
  simp

end Etpan.Mbox
