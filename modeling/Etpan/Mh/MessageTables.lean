import Etpan.Mh.FolderTree
import Etpan.Mh.MessageStore

namespace Etpan.Mh

open Etpan.Data

/-! What the operations do to the tables of the messages. -/

variable {s s' : Store} {ref : Nat} {folder folder' : Folder} {indx : UInt32}

def AllIndexed (s : Store) : Prop := ∀ ref folder, s.folder ref = some folder → Indexed folder

/-- An operation on one folder: it stays, the others are left alone, and hashes go on to say
where messages stand. -/
structure Acts (s s' : Store) (ref : Nat) (folder folder' : Folder) : Prop where
  live : s'.folder ref = some folder'
  filename : folder'.flFilename = folder.flFilename
  others : ∀ other found, other ≠ ref → s.folder other = some found → s'.folder other = some found
  indexed : AllIndexed s → AllIndexed s'

theorem Acts.refl (live : s.folder ref = some folder) : Acts s s ref folder folder :=
  ⟨live, rfl, fun _ _ _ there => there, id⟩

theorem Acts.trans {s'' : Store} {folder'' : Folder} (first : Acts s s' ref folder folder') (second : Acts s' s'' ref folder' folder'') :
    Acts s s'' ref folder folder'' where
  live := second.live
  filename := second.filename.trans first.filename
  others := fun other found differs there => second.others other found differs (first.others other found differs there)
  indexed := second.indexed ∘ first.indexed

theorem Acts.modify (live : s.folder ref = some folder) {change : Folder → Folder}
    (filename : (change folder).flFilename = folder.flFilename) (indexed : Indexed folder → Indexed (change folder)) :
    Acts s (s.modify ref change) ref folder (change folder) where
  live := by rw [Store.modify_folder, if_pos rfl, live]; rfl
  filename := filename
  others := fun other found differs there => by rw [Store.modify_folder, if_neg differs, there]
  indexed := fun all other found there => by
    rw [Store.modify_folder] at there
    split_ifs at there with isRef
    · rw [live] at there
      cases there
      exact indexed (all ref folder live)
    · exact all other found there

theorem Indexed.congr (indexed : Indexed folder) (tab : folder'.flMsgsTab = folder.flMsgsTab)
    (hash : folder'.flMsgsHash = folder.flMsgsHash) : Indexed folder' := by
  intro indx msgInfo found
  rw [hash] at found
  rw [tab]
  exact indexed indx msgInfo found

theorem Once.congr (once : Once folder indx) (tab : folder'.flMsgsTab = folder.flMsgsTab)
    (hash : folder'.flMsgsHash = folder.flMsgsHash) : Once folder' indx := by
  intro i msgInfo entry
  rw [tab] at entry
  rw [hash]
  exact once i msgInfo entry

theorem Indexed.addMsgInfo (indexed : Indexed folder) (indx : UInt32) (size : Nat) (mtime : Int) :
    Indexed (addMsgInfo folder indx size mtime) := by
  intro other msgInfo found
  by_cases isNew : other = indx
  · rw [isNew, Mh.addMsgInfo, AList.lookup_insert] at found
    cases found
    exact ⟨isNew.symm, by simp [Mh.addMsgInfo]⟩
  · rw [Mh.addMsgInfo, AList.lookup_insert_ne isNew] at found
    obtain ⟨number, there⟩ := indexed other msgInfo found
    have early := (List.getElem?_eq_some_iff.mp there).1
    exact ⟨number, by rw [Mh.addMsgInfo, List.getElem?_append_left early, there]⟩

theorem lists_addMsgInfo (folder : Folder) (indx : UInt32) (size : Nat) (mtime : Int) : Lists (addMsgInfo folder indx size mtime) indx :=
  ⟨⟨folder.flMsgsTab.length, indx, size, mtime⟩, AList.lookup_insert _, rfl, by simp [addMsgInfo]⟩

def Free (folder : Folder) (indx : UInt32) : Prop := ∀ msgInfo, some msgInfo ∈ folder.flMsgsTab → msgInfo.msgIndex ≠ indx

theorem Free.once (free : Free folder indx) : Once folder indx :=
  fun _ msgInfo entry isIndx => absurd isIndx (free msgInfo (List.mem_of_getElem? entry))

theorem Free.addMsgInfo (free : Free folder indx) {other : UInt32} (differs : other ≠ indx) (size : Nat) (mtime : Int) :
    Free (addMsgInfo folder other size mtime) indx := by
  intro msgInfo member
  rcases List.mem_append.mp member with early | last
  · exact free msgInfo early
  · cases List.mem_singleton.mp last
    exact differs

theorem Once.addMsgInfo (once : Once folder indx) {other : UInt32} (differs : other ≠ indx) (size : Nat) (mtime : Int) :
    Once (addMsgInfo folder other size mtime) indx := by
  intro i msgInfo entry isIndx
  have kept : (Mh.addMsgInfo folder other size mtime).flMsgsHash.lookup indx = folder.flMsgsHash.lookup indx :=
    AList.lookup_insert_ne differs.symm
  rw [kept]
  rw [Mh.addMsgInfo, List.getElem?_append] at entry
  split_ifs at entry with early
  · exact once i msgInfo entry isIndx
  · rw [List.getElem?_singleton] at entry
    split_ifs at entry
    cases entry
    exact absurd isIndx differs

theorem Free.once_addMsgInfo (free : Free folder indx) (size : Nat) (mtime : Int) :
    Once (Mh.addMsgInfo folder indx size mtime) indx := by
  intro i msgInfo entry isIndx
  refine ⟨⟨folder.flMsgsTab.length, indx, size, mtime⟩, AList.lookup_insert _, ?_⟩
  rw [Mh.addMsgInfo, List.getElem?_append] at entry
  split_ifs at entry with early
  · exact absurd isIndx (free msgInfo (List.mem_of_getElem? entry))
  · rw [List.getElem?_singleton] at entry
    split_ifs at entry with isLast
    exact show folder.flMsgsTab.length = i by omega

theorem eraseAll_lookup (tab : List (Option MsgInfo)) (hash : AList fun _ : UInt32 => MsgInfo) (indx : UInt32) (msgInfo : MsgInfo)
    (found : (tab.foldl (fun hash msgInfo => msgInfo.elim hash fun msgInfo => hash.erase msgInfo.msgIndex) hash).lookup indx =
      some msgInfo) :
    hash.lookup indx = some msgInfo ∧ ∀ other, some other ∈ tab → other.msgIndex ≠ indx := by
  induction tab generalizing hash with
  | nil => exact ⟨found, fun other member => by cases member⟩
  | cons first tab ih =>
      rw [List.foldl_cons] at found
      obtain ⟨rest, others⟩ := ih _ found
      cases first with
      | none =>
          refine ⟨rest, fun other member => ?_⟩
          rcases List.mem_cons.mp member with isNone | member
          · cases isNone
          · exact others other member
      | some erased =>
          have differs : indx ≠ erased.msgIndex := by
            intro same
            rw [same, Option.elim_some, AList.lookup_erase] at rest
            cases rest
          rw [Option.elim_some, AList.lookup_erase_ne differs] at rest
          refine ⟨rest, fun other member => ?_⟩
          rcases List.mem_cons.mp member with isFirst | member
          · cases isFirst
            exact differs.symm
          · exact others other member

/-- The hash is empty when every message of the table has been deleted from it. -/
theorem Indexed.clearMessages (indexed : Indexed folder) : Indexed (clearMessages folder) := by
  intro indx msgInfo found
  obtain ⟨before, others⟩ := eraseAll_lookup _ _ _ _ found
  obtain ⟨number, there⟩ := indexed indx msgInfo before
  exact absurd number (others msgInfo (List.mem_of_getElem? there))

theorem free_clearMessages (folder : Folder) (indx : UInt32) : Free (clearMessages folder) indx :=
  fun _ member => by cases member

theorem dropMessage_unlisted (once : Once folder indx) : Unlisted (dropMessage indx folder) indx := by
  cases found : folder.flMsgsHash.lookup indx with
  | none =>
      have same : dropMessage indx folder = folder := by rw [dropMessage, found]
      rw [same]
      refine ⟨fun msgInfo member isIndx => ?_, found⟩
      obtain ⟨i, entry⟩ := List.mem_iff_getElem?.mp member
      obtain ⟨other, isFound, _⟩ := once i msgInfo entry isIndx
      rw [found] at isFound
      cases isFound
  | some listed =>
      have dropped : dropMessage indx folder =
          { folder with
            flMsgsTab := folder.flMsgsTab.set listed.msgArrayIndex none
            flMsgsHash := folder.flMsgsHash.erase indx } := by rw [dropMessage, found]
      rw [dropped]
      refine ⟨fun msgInfo member isIndx => ?_, AList.lookup_erase _ _⟩
      obtain ⟨i, entry⟩ := List.mem_iff_getElem?.mp member
      rw [List.getElem?_set] at entry
      split_ifs at entry with isSlot
      · cases entry
      · obtain ⟨other, isFound, place⟩ := once i msgInfo entry isIndx
        rw [found] at isFound
        cases isFound
        exact isSlot place

theorem dropMessage_keeps (indexed : Indexed folder) {other : UInt32} (differs : other ≠ indx) {msgInfo : MsgInfo}
    (found : folder.flMsgsHash.lookup other = some msgInfo) :
    (dropMessage indx folder).flMsgsHash.lookup other = some msgInfo ∧
      (dropMessage indx folder).flMsgsTab[msgInfo.msgArrayIndex]? = some (some msgInfo) := by
  obtain ⟨number, there⟩ := indexed other msgInfo found
  rw [dropMessage]
  cases isFound : folder.flMsgsHash.lookup indx with
  | none => exact ⟨found, there⟩
  | some dropped =>
      obtain ⟨droppedNumber, droppedThere⟩ := indexed indx dropped isFound
      have slots : dropped.msgArrayIndex ≠ msgInfo.msgArrayIndex := by
        intro same
        rw [same, there] at droppedThere
        cases droppedThere
        exact differs (number.symm.trans droppedNumber)
      exact ⟨by rw [AList.lookup_erase_ne differs, found], by rw [List.getElem?_set, if_neg slots, there]⟩

theorem Indexed.dropMessage (indexed : Indexed folder) (indx : UInt32) : Indexed (dropMessage indx folder) := by
  intro other msgInfo found
  by_cases isIndx : other = indx
  · rw [isIndx, Mh.dropMessage] at found
    cases isFound : folder.flMsgsHash.lookup indx with
    | none =>
        rw [isFound] at found
        simp only [isFound, reduceCtorEq] at found
    | some dropped =>
        rw [isFound] at found
        simp only [AList.lookup_erase, reduceCtorEq] at found
  · have before : folder.flMsgsHash.lookup other = some msgInfo := by
      rw [Mh.dropMessage] at found
      cases isFound : folder.flMsgsHash.lookup indx with
      | none => simpa only [isFound] using found
      | some dropped => simpa only [isFound, AList.lookup_erase_ne isIndx] using found
    exact ⟨(indexed other msgInfo before).1, (dropMessage_keeps indexed isIndx before).2⟩

theorem dropMessage_filename (indx : UInt32) (folder : Folder) : (dropMessage indx folder).flFilename = folder.flFilename := by
  rw [dropMessage]
  cases folder.flMsgsHash.lookup indx <;> rfl

inductive EntryRead (folder folder' : Folder) (ent : Dirent) : Prop
  | message {indx : UInt32} {size : Nat} {mtime : Int} (number : ent.number = some indx) (isNew : folder' = addMsgInfo folder indx size mtime)
  | other (number : ent.number = none) (tab : folder'.flMsgsTab = folder.flMsgsTab) (hash : folder'.flMsgsHash = folder.flMsgsHash)

theorem newSubfolder_acts (live : s.folder ref = some folder) (name : List UInt8) :
    Acts s (newSubfolder s ref folder name) ref folder (addToHash (inside folder.flFilename name) s.size (addToTab s.size folder)) where
  live := by rw [newSubfolder_folder live, if_neg (by have := Store.live_lt live; omega), if_pos rfl]
  filename := rfl
  others := fun other found differs there => by
    rw [newSubfolder_folder live, if_neg (by have := Store.live_lt there; omega), if_neg differs, there]
  indexed := fun all other found there => by
    rw [newSubfolder_folder live] at there
    split_ifs at there
    · cases there
      intro indx msgInfo absent
      cases absent
    · cases there
      exact (all ref folder live).congr rfl rfl
    · exact all other found there

theorem readEntry_acts (live : s.folder ref = some folder) (maxIndex : UInt32) (ent : Dirent) :
    ∃ folder', Acts s (readEntry ref (s, maxIndex) ent).1 ref folder folder' ∧ EntryRead folder folder' ent := by
  rw [readEntry]
  cases kind : ent.kind with
  | regular size mtime =>
      dsimp only
      by_cases isMessage : UInt32.ofNat (Mbox.strtoul ent.dName) ≠ 0
      · rw [if_pos isMessage]
        exact ⟨addMsgInfo folder _ size mtime, .modify live rfl fun indexed => indexed.addMsgInfo _ size mtime,
          .message (by simp only [Dirent.number, kind]; rw [if_pos isMessage]) rfl⟩
      · rw [if_neg isMessage]
        exact ⟨folder, .refl live, .other (by simp only [Dirent.number, kind]; rw [if_neg isMessage]) rfl rfl⟩
  | directory =>
      have number : ent.number = none := by simp only [Dirent.number, kind]
      dsimp only
      split_ifs
      · exact ⟨folder, .refl live, .other number rfl rfl⟩
      · rw [live]
        dsimp only
        cases folder.flSubfoldersHash.lookup ent.dName with
        | some _ => exact ⟨folder, .refl live, .other number rfl rfl⟩
        | none => exact ⟨_, newSubfolder_acts live ent.dName, .other number rfl rfl⟩
  | special => exact ⟨folder, .refl live, .other (by simp only [Dirent.number, kind]) rfl rfl⟩
  | unknown => exact ⟨folder, .refl live, .other (by simp only [Dirent.number, kind]) rfl rfl⟩

/-- The entries of a directory, read behind each other: an index that they have at most once
stands in the table at most once. -/
theorem readEntries_acts (entries : List Dirent) (live : s.folder ref = some folder) (maxIndex : UInt32) :
    ∃ folder', Acts s (entries.foldl (readEntry ref) (s, maxIndex)).1 ref folder folder' ∧
      ∀ indx, Free folder indx ∧ (entries.filterMap Dirent.number).count indx ≤ 1 ∨
        Once folder indx ∧ indx ∉ entries.filterMap Dirent.number → Once folder' indx := by
  induction entries generalizing s folder maxIndex with
  | nil =>
      refine ⟨folder, .refl live, ?_⟩
      rintro indx (⟨free, _⟩ | ⟨once, _⟩)
      · exact free.once
      · exact once
  | cons ent entries ih =>
      obtain ⟨next, acts, read⟩ := readEntry_acts live maxIndex ent
      rw [List.foldl_cons]
      obtain ⟨folder', rest, once⟩ := ih acts.live (readEntry ref (s, maxIndex) ent).2
      refine ⟨folder', acts.trans rest, fun indx before => once indx ?_⟩
      cases read with
      | other number tab hash =>
          rw [List.filterMap_cons, number] at before
          rcases before with ⟨free, few⟩ | ⟨once, absent⟩
          · exact Or.inl ⟨fun msgInfo member => free msgInfo (tab ▸ member), few⟩
          · exact Or.inr ⟨once.congr tab hash, absent⟩
      | @message added size mtime number isNew =>
          rw [List.filterMap_cons, number] at before
          simp only at before
          by_cases isIndx : added = indx
          · subst isIndx
            rcases before with ⟨free, few⟩ | ⟨_, absent⟩
            · rw [List.count_cons_self] at few
              refine Or.inr ⟨by rw [isNew]; exact free.once_addMsgInfo size mtime, ?_⟩
              exact List.count_eq_zero.mp (by omega)
            · exact absurd List.mem_cons_self absent
          · rcases before with ⟨free, few⟩ | ⟨once, absent⟩
            · rw [List.count_cons_of_ne isIndx] at few
              exact Or.inl ⟨by rw [isNew]; exact free.addMsgInfo isIndx size mtime, few⟩
            · exact Or.inr ⟨by rw [isNew]; exact once.addMsgInfo isIndx size mtime,
                fun member => absent (List.mem_cons_of_mem _ member)⟩

theorem update_acts (live : s.folder ref = some folder) {reading : Reading} {outcome : Except MhError Unit}
    (updated : mailmhFolderUpdate s ref reading = some (outcome, s')) :
    ∃ folder', Acts s s' ref folder folder' ∧ ∀ indx, Once folder indx → reading.Once folder indx → Once folder' indx := by
  rw [mailmhFolderUpdate, live] at updated
  cases times : reading.mtime with
  | none =>
      simp only [times, Option.some.injEq, Prod.mk.injEq] at updated
      exact ⟨folder, updated.2 ▸ .refl live, fun _ once _ => once⟩
  | some mtime =>
      simp only [times] at updated
      split_ifs at updated with same
      · simp only [Option.some.injEq, Prod.mk.injEq] at updated
        exact ⟨folder, updated.2 ▸ .refl live, fun _ once _ => once⟩
      · have stamped : Acts s (s.modify ref ({ · with flMtime := mtime })) ref folder { folder with flMtime := mtime } :=
          .modify live rfl fun indexed => indexed.congr rfl rfl
        cases listed : reading.listing with
        | none =>
            simp only [listed, Option.some.injEq, Prod.mk.injEq] at updated
            obtain ⟨_, rfl⟩ := updated
            exact ⟨_, stamped, fun _ once _ => once.congr rfl rfl⟩
        | some listing =>
            simp only [listed, Option.some.injEq, Prod.mk.injEq] at updated
            obtain ⟨_, rfl⟩ := updated
            have cleared := stamped.trans (@Acts.modify _ _ _ stamped.live clearMessages rfl Indexed.clearMessages)
            obtain ⟨read, reads, once⟩ := readEntries_acts listing.entries cleared.live 0
            refine ⟨_, (cleared.trans reads).trans (.modify reads.live rfl fun indexed => indexed.congr rfl rfl), ?_⟩
            intro indx _ few
            exact (once indx (Or.inl ⟨free_clearMessages _ indx, few mtime listing times same listed⟩)).congr rfl rfl

theorem update_some (live : s.folder ref = some folder) (reading : Reading) :
    ∃ outcome s', mailmhFolderUpdate s ref reading = some (outcome, s') := by
  rw [mailmhFolderUpdate, live]
  dsimp only
  split
  · exact ⟨_, _, rfl⟩
  · split_ifs
    · exact ⟨_, _, rfl⟩
    · split
      · exact ⟨_, _, rfl⟩
      · exact ⟨_, _, rfl⟩

end Etpan.Mh
