import Etpan.Mh.FolderFree

namespace Etpan.Mh

open Etpan.Data

/-! The tree of folders over runs, and the search in it. -/

variable {s s' : Store} {ref sub : Nat} {folder subfolder : Folder}

def AllPersist (s s' : Store) : Prop := Persist s s' fun _ => True

theorem AllPersist.trans {s'' : Store} (first : AllPersist s s') (second : AllPersist s' s'') : AllPersist s s'' := by
  intro sub folder _ live
  obtain ⟨folder', live', place⟩ := first sub folder trivial live
  obtain ⟨folder'', live'', place'⟩ := second sub folder' trivial live'
  exact ⟨folder'', live'', place'.filename.trans place.filename, place'.index.trans place.index, place'.parent.trans place.parent⟩

theorem AllPersist.refl (s : Store) : AllPersist s s := fun _ folder _ live => ⟨folder, live, .refl folder⟩

theorem modify_persist (ref : Nat) {change : Folder → Folder} (place : ∀ folder, SamePlace folder (change folder)) :
    AllPersist s (s.modify ref change) := by
  intro sub folder _ live
  rw [Store.modify_folder]
  split_ifs with isRef
  · exact ⟨change folder, by rw [← isRef, live]; rfl, place folder⟩
  · exact ⟨folder, live, .refl folder⟩

theorem readEntry_persist (ref : Nat) (read : Store × UInt32) (ent : Dirent) : AllPersist read.1 (readEntry ref read ent).1 := by
  rw [readEntry]
  split
  · by_cases isMessage : UInt32.ofNat (Mbox.strtoul ent.dName) ≠ 0
    · rw [if_pos isMessage]
      exact modify_persist ref fun _ => ⟨rfl, rfl, rfl⟩
    · rw [if_neg isMessage]
      exact .refl read.1
  · split_ifs
    · exact .refl read.1
    · split
      · exact .refl read.1
      · next live =>
          split
          · exact .refl read.1
          · exact newSubfolder_persist live ent.dName _
  · exact .refl read.1
  · exact .refl read.1

theorem readEntries_persist (ref : Nat) (read : Store × UInt32) (entries : List Dirent) :
    AllPersist read.1 (entries.foldl (readEntry ref) read).1 := by
  induction entries generalizing read with
  | nil => exact .refl read.1
  | cons ent entries ih => exact (readEntry_persist ref read ent).trans (ih _)

theorem update_persist {reading : Reading} {outcome : Except MhError Unit}
    (updated : mailmhFolderUpdate s ref reading = some (outcome, s')) : AllPersist s s' := by
  rw [mailmhFolderUpdate] at updated
  split at updated
  · cases updated
  · split at updated
    · cases updated
      exact .refl s
    · split_ifs at updated
      · cases updated
        exact .refl s
      · split at updated
        · cases updated
          exact modify_persist ref fun _ => ⟨rfl, rfl, rfl⟩
        · cases updated
          refine AllPersist.trans ?_ (modify_persist ref fun _ => ⟨rfl, rfl, rfl⟩)
          refine AllPersist.trans ?_ (readEntries_persist ref (_, 0) _)
          refine AllPersist.trans ?_ (modify_persist ref fun _ => ⟨rfl, rfl, rfl⟩)
          exact modify_persist ref fun _ => ⟨rfl, rfl, rfl⟩

def IsRoot (s : Store) (root : Nat) : Prop := ∃ folder, s.folder root = some folder ∧ folder.flParent = none

theorem AllPersist.isRoot {root : Nat} (persist : AllPersist s s') (isRoot : IsRoot s root) : IsRoot s' root := by
  obtain ⟨folder, live, noParent⟩ := isRoot
  obtain ⟨folder', live', place⟩ := persist root folder trivial live
  exact ⟨folder', live', by rw [place.parent, noParent]⟩

theorem remove_isRoot {root : Nat} {outcome : Except MhError Unit} (consistent : Consistent s)
    (removed : mailmhFolderRemoveSubfolder s ref = some (outcome, s')) (isRoot : IsRoot s root) : IsRoot s' root := by
  obtain ⟨rootFolder, rootLive, noParent⟩ := isRoot
  obtain ⟨folder, parent, parentFolder, removal⟩ := remove_cases consistent removed
  rcases removal.persist root with freed | persists
  · exact absurd freed (removal.keeps rootLive noParent)
  · obtain ⟨found', live', place⟩ := persists rootFolder rootLive
    exact ⟨found', live', by rw [place.parent, noParent]⟩

theorem add_cases {name : List UInt8} {mkdir : Bool} (added : mailmhFolderAddSubfolder s ref name mkdir = some (.ok (), s')) :
    ∃ folder, s.folder ref = some folder ∧ mkdir = true ∧ s' = newSubfolder s ref folder name := by
  rw [mailmhFolderAddSubfolder] at added
  cases live : s.folder ref with
  | none => simp only [live, reduceCtorEq] at added
  | some folder =>
      cases mkdir with
      | false => simp [live] at added
      | true =>
          simp only [live, if_true, Option.some.injEq, Prod.mk.injEq, true_and] at added
          exact ⟨folder, rfl, rfl, added.symm⟩

theorem rename_fails {src dst memory : Nat} {newName : List UInt8} :
    mailmhFolderRenameSubfolder s src dst newName false memory ≠ some (.ok (), s') := by
  intro succeeds
  rw [mailmhFolderRenameSubfolder] at succeeds
  cases live : s.folder src with
  | none => simp only [live, reduceCtorEq] at succeeds
  | some folder =>
      cases isParent : folder.flParent with
      | none => simp [live, isParent] at succeeds
      | some parent => simp [live, isParent] at succeeds

theorem Consistent.step {root : Nat} (consistent : Consistent s) (isRoot : IsRoot s root) {operation : Operation}
    (safe : Safe s operation) (succeeds : operation.run s = some (.ok (), s')) : Consistent s' ∧ IsRoot s' root := by
  cases operation with
  | update ref reading => exact ⟨consistent.update safe succeeds, (update_persist succeeds).isRoot isRoot⟩
  | addSubfolder parent name mkdir =>
      obtain ⟨folder, live, made, rfl⟩ := add_cases succeeds
      obtain ⟨plain, fresh⟩ := safe made folder live
      exact ⟨consistent.newSubfolder live plain fresh, AllPersist.isRoot (newSubfolder_persist live name _) isRoot⟩
  | removeSubfolder ref =>
      obtain ⟨folder, parent, parentFolder, removal⟩ := remove_cases consistent succeeds
      exact ⟨removal.consistent', remove_isRoot consistent succeeds isRoot⟩
  | renameSubfolder src dst newName rename memory =>
      cases (show rename = false from safe)
      exact absurd succeeds rename_fails

theorem mailmhNew_consistent (foldername : List UInt8) : Consistent (mailmhNew foldername) := by
  have only : ∀ {ref folder}, (mailmhNew foldername).folder ref = some folder → folder = mailmhFolderNew none foldername 0 := by
    intro ref folder live
    rw [mailmhNew, Store.alloc_folder] at live
    split_ifs at live
    · cases live
      rfl
    · cases live
  constructor
  · intro ref folder live
    rw [only live]
    exact { entries := fun i sub entry => by cases entry
            hash := fun key sub hashed => by cases hashed
            named := fun sub subfolder listed => by cases listed
            later := fun sub listed => by cases listed }
  · intro ref folder parent live isParent
    rw [only live] at isParent
    cases isParent

theorem InTree.live {root : Nat} (consistent : Consistent s) (isRoot : IsRoot s root) (inTree : InTree s root ref) :
    ∃ folder, s.folder ref = some folder := by
  induction inTree with
  | refl =>
      obtain ⟨folder, live, _⟩ := isRoot
      exact ⟨folder, live⟩
  | tail _ listed _ =>
      obtain ⟨folder, live, member⟩ := listed
      obtain ⟨subfolder, subLive, _⟩ := (consistent.sound _ folder live).listed member
      exact ⟨subfolder, subLive⟩

theorem idxOf?_none {name : List UInt8} (plain : MAIL_DIR_SEPARATOR ∉ name) : name.idxOf? MAIL_DIR_SEPARATOR = none :=
  List.idxOf?_eq_none_iff.mpr plain

theorem idxOf?_append {name rest : List UInt8} (plain : MAIL_DIR_SEPARATOR ∉ name) :
    (name ++ MAIL_DIR_SEPARATOR :: rest).idxOf? MAIL_DIR_SEPARATOR = some name.length := by
  induction name with
  | nil => simp [List.idxOf?_cons]
  | cons byte name ih =>
      rw [List.mem_cons, not_or] at plain
      simp [List.idxOf?_cons, Ne.symm plain.1, ih plain.2]

theorem inside_drop (folder name : List UInt8) : (inside folder name).drop (folder.length + 1) = name := by
  simp [inside, List.drop_append]

theorem inside_length (folder name : List UInt8) : (inside folder name).length = folder.length + 1 + name.length := by
  simp [inside]
  omega

/-- A folder below another one has a longer path, of a length that the search takes. -/
theorem path_below {above : Nat} {aboveFolder : Folder} (consistent : Consistent s) (below : InTree s above ref)
    (aboveLive : s.folder above = some aboveFolder) (live : s.folder ref = some folder) :
    ref = above ∨ (∃ rest, folder.flFilename = inside aboveFolder.flFilename rest) ∧ folder.flFilename.length < PATH_MAX := by
  induction below using Relation.ReflTransGen.head_induction_on generalizing aboveFolder with
  | refl => exact Or.inl rfl
  | head listed _ ih =>
      obtain ⟨found, isFound, member⟩ := listed
      rw [aboveLive] at isFound
      cases isFound
      have sound := consistent.sound _ aboveFolder aboveLive
      obtain ⟨child, childLive, _⟩ := sound.listed member
      obtain ⟨⟨name, plain, path⟩, short⟩ := sound.named _ child member childLive
      refine Or.inr ?_
      rcases ih childLive with rfl | ⟨⟨rest, longer⟩, lastShort⟩
      · rw [live] at childLive
        cases childLive
        exact ⟨⟨name, path⟩, short⟩
      · refine ⟨⟨name ++ MAIL_DIR_SEPARATOR :: rest, ?_⟩, lastShort⟩
        rw [longer, path]
        simp [inside]

theorem find_child (live : s.folder ref = some folder) (consistent : Consistent s) (listed : some sub ∈ folder.flSubfoldersTab)
    (subLive : s.folder sub = some subfolder) (rounds : Nat) :
    mailmhFolderFind s (rounds + 1) ref subfolder.flFilename = some (some sub) := by
  have sound := consistent.sound ref folder live
  obtain ⟨_, _, hashed⟩ := sound.child subLive listed
  obtain ⟨⟨name, plain, path⟩, short⟩ := sound.named sub subfolder listed subLive
  have length := inside_length folder.flFilename name
  rw [path, length] at short
  have whole : subfolder.flFilename.take (PATH_MAX - 1) = subfolder.flFilename := by
    rw [path, List.take_of_length_le (by omega)]
  have differs : folder.flFilename ≠ subfolder.flFilename := by
    intro same
    have lengths := congrArg List.length same
    rw [path, length] at lengths
    omega
  rw [mailmhFolderFind, live]
  simp only [if_neg differs, if_neg (show ¬PATH_MAX ≤ folder.flFilename.length + 1 by omega), whole]
  rw [show subfolder.flFilename.drop (folder.flFilename.length + 1) = name by rw [path, inside_drop], idxOf?_none plain]
  rw [← hashed]
  exact congrArg some (congrArg (AList.lookup · folder.flSubfoldersHash) whole)

theorem find_below {above rounds : Nat} {aboveFolder : Folder} (consistent : Consistent s) (below : InTree s above ref)
    (aboveLive : s.folder above = some aboveFolder) (live : s.folder ref = some folder)
    (enough : folder.flFilename.length < rounds + aboveFolder.flFilename.length) :
    mailmhFolderFind s rounds above folder.flFilename = some (some ref) := by
  induction below using Relation.ReflTransGen.head_induction_on generalizing aboveFolder rounds with
  | refl =>
      rw [aboveLive] at live
      cases live
      obtain ⟨rounds, rfl⟩ := Nat.exists_eq_add_of_le' (show 1 ≤ rounds by omega)
      rw [mailmhFolderFind, aboveLive]
      simp only [if_true]
  | @head above child listed below ih =>
      obtain ⟨found, isFound, member⟩ := listed
      rw [aboveLive] at isFound
      cases isFound
      have sound := consistent.sound above aboveFolder aboveLive
      obtain ⟨childFolder, childLive, _⟩ := sound.listed member
      obtain ⟨⟨name, plain, path⟩, _⟩ := sound.named child childFolder member childLive
      have length := inside_length aboveFolder.flFilename name
      rcases path_below consistent below childLive live with rfl | ⟨⟨rest, longer⟩, short⟩
      · rw [live] at childLive
        cases childLive
        obtain ⟨rounds, rfl⟩ := Nat.exists_eq_add_of_le' (show 1 ≤ rounds by rw [path, length] at enough; omega)
        exact find_child aboveLive consistent member live rounds
      · have lastLength := inside_length childFolder.flFilename rest
        rw [path, length] at lastLength
        rw [longer, path] at enough short
        have onward : mailmhFolderFind s (rounds - 1) child folder.flFilename = some (some ref) := by
          refine ih childLive ?_
          rw [longer, path]
          omega
        obtain ⟨rounds, rfl⟩ := Nat.exists_eq_add_of_le' (show 2 ≤ rounds by omega)
        have whole : folder.flFilename.take (PATH_MAX - 1) = folder.flFilename := by
          rw [longer, path, List.take_of_length_le (by omega)]
        have differs : aboveFolder.flFilename ≠ folder.flFilename := by
          intro same
          have lengths := congrArg List.length same
          rw [longer, path] at lengths
          omega
        have behind : folder.flFilename = inside aboveFolder.flFilename (name ++ MAIL_DIR_SEPARATOR :: rest) := by
          rw [longer, path]
          simp [inside]
        have front : folder.flFilename.take (aboveFolder.flFilename.length + 1 + name.length) = childFolder.flFilename := by
          rw [longer, inside, path, ← length, List.take_left]
        rw [mailmhFolderFind, aboveLive]
        simp only [if_neg differs, if_neg (show ¬PATH_MAX ≤ aboveFolder.flFilename.length + 1 by omega), whole]
        rw [show folder.flFilename.drop (aboveFolder.flFilename.length + 1) = name ++ MAIL_DIR_SEPARATOR :: rest by
          rw [behind, inside_drop], idxOf?_append plain]
        simp only [front]
        rw [find_child aboveLive consistent member childLive rounds]
        exact onward

theorem Consistent.tree {root : Nat} (consistent : Consistent s) (isRoot : IsRoot s root) : Tree s root where
  live := fun ref inTree => by
    obtain ⟨folder, live⟩ := InTree.live consistent isRoot inTree
    rw [live]
    simp
  kept := fun ref folder _ live =>
    ⟨(consistent.sound ref folder live).toKept, (consistent.sound ref folder live).toKept.distinct⟩
  found := fun ref folder inTree live => by
    obtain ⟨rootFolder, rootLive, _⟩ := isRoot
    exact ⟨folder.flFilename.length + 1, fun rounds enough => find_below consistent inTree rootLive live (by omega)⟩

theorem Run.tree {root : Nat} (run : Run Safe s s') (consistent : Consistent s) (isRoot : IsRoot s root) : Tree s' root := by
  induction run with
  | nil => exact consistent.tree isRoot
  | cons operation safe succeeds _ ih =>
      obtain ⟨consistent', isRoot'⟩ := consistent.step isRoot safe succeeds
      exact ih consistent' isRoot'

/-- In every state that safe operations on a new folder reach, the tree is as promised. -/
theorem mailmhNew_run_tree (foldername : List UInt8) (run : Run Safe (mailmhNew foldername) s) : Tree s 0 :=
  run.tree (mailmhNew_consistent foldername) ⟨_, rfl, rfl⟩

def oneDirectory (mtime : Int) : Reading where
  mtime := some mtime
  listing := some ⟨[⟨asciiText "a", .directory⟩], by decide, by decide⟩

def updatedOnce : Store := ((mailmhFolderUpdate (mailmhNew (asciiText "mh")) 0 (oneDirectory 1)).map Prod.snd).getD .empty

def updatedTwice : Store := ((mailmhFolderUpdate updatedOnce 0 (oneDirectory 2)).map Prod.snd).getD .empty

theorem updatedOnce_tree : Tree updatedOnce 0 := by
  refine mailmhNew_run_tree (asciiText "mh") (.cons (.update 0 (oneDirectory 1)) ?_ rfl (.nil updatedOnce))
  intro folder mtime listing live _ _ listed ent member _ _
  cases live
  cases listed
  cases List.mem_singleton.mp member
  exact ⟨rfl, by decide⟩

/-- The second update does not find the folder of the first in the hash, and adds another one. -/
theorem updatedTwice_not_tree : ¬∀ s, Run (fun _ _ => True) (mailmhNew (asciiText "mh")) s → Tree s 0 := by
  intro always
  have tree := always updatedTwice (.cons (.update 0 (oneDirectory 1)) trivial rfl (.cons (.update 0 (oneDirectory 2)) trivial rfl (.nil _)))
  have same := (tree.kept 0 _ .refl rfl).2 0 1 1 2 _ _ rfl rfl rfl rfl rfl
  cases same

end Etpan.Mh
