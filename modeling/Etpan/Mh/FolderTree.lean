import Mathlib.Logic.Relation
import Etpan.Mh.Folder

namespace Etpan.Mh

open Etpan.Data

/-! The tree of the folders: its tables, hashes and parents over runs. -/

variable {s s' : Store} {ref sub : Nat} {folder subfolder : Folder}

def Listed (s : Store) (ref sub : Nat) : Prop := ∃ folder, s.folder ref = some folder ∧ some sub ∈ folder.flSubfoldersTab

def InTree (s : Store) : Nat → Nat → Prop := Relation.ReflTransGen (Listed s)

/-- The subfolders of a folder are where its table, its hash and they themselves say. -/
structure Kept (s : Store) (ref : Nat) (folder : Folder) : Prop where
  entries : ∀ i sub, folder.flSubfoldersTab[i]? = some (some sub) → ∃ subfolder, s.folder sub = some subfolder ∧
    subfolder.flArrayIndex = i ∧ subfolder.flParent = some ref ∧ folder.flSubfoldersHash.lookup subfolder.flFilename = some sub
  hash : ∀ key sub, folder.flSubfoldersHash.lookup key = some sub →
    some sub ∈ folder.flSubfoldersTab ∧ ∃ subfolder, s.folder sub = some subfolder ∧ subfolder.flFilename = key

/-- No two places of the table have folders with the same path. -/
def Distinct (s : Store) (folder : Folder) : Prop :=
  ∀ (i j : Nat) (sub sub' : Nat) (subfolder subfolder' : Folder),
    folder.flSubfoldersTab[i]? = some (some sub) → folder.flSubfoldersTab[j]? = some (some sub') → s.folder sub = some subfolder →
    s.folder sub' = some subfolder' → subfolder.flFilename = subfolder'.flFilename → i = j

/-- What holds of the tree of a root. -/
structure Tree (s : Store) (root : Nat) : Prop where
  live : ∀ ref, InTree s root ref → s.folder ref ≠ none
  kept : ∀ ref folder, InTree s root ref → s.folder ref = some folder → Kept s ref folder ∧ Distinct s folder
  found : ∀ ref folder, InTree s root ref → s.folder ref = some folder →
    ∃ enough, ∀ rounds, enough ≤ rounds → mailmhFolderFind s rounds root folder.flFilename = some (some ref)

inductive Operation where
  | update (ref : Nat) (reading : Reading)
  | addSubfolder (parent : Nat) (name : List UInt8) (mkdir : Bool)
  | removeSubfolder (ref : Nat)
  | renameSubfolder (src dst : Nat) (newName : List UInt8) (rename : Bool) (memory : Nat)

def Operation.run : Operation → Store → Option (Except MhError Unit × Store)
  | .update ref reading, s => mailmhFolderUpdate s ref reading
  | .addSubfolder parent name mkdir, s => mailmhFolderAddSubfolder s parent name mkdir
  | .removeSubfolder ref, s => mailmhFolderRemoveSubfolder s ref
  | .renameSubfolder src dst newName rename memory, s => mailmhFolderRenameSubfolder s src dst newName rename memory

inductive Run (condition : Store → Operation → Prop) : Store → Store → Prop where
  | nil (s : Store) : Run condition s s
  | cons {s between s' : Store} (operation : Operation) (safe : condition s operation)
      (succeeds : operation.run s = some (.ok (), between)) (rest : Run condition between s') : Run condition s s'

/-- A name that no subfolder of the folder has yet, for a path of a length that the search
takes. -/
structure Fresh (folder : Folder) (name : List UInt8) : Prop where
  absent : folder.flSubfoldersHash.lookup (inside folder.flFilename name) = none
  short : (inside folder.flFilename name).length < PATH_MAX

/-- An update that reads the directory finds no directory of a subfolder that the folder has,
a folder is only added under a fresh name that is no path, and no renaming gets beyond `rename`. -/
def Safe (s : Store) : Operation → Prop
  | .update ref reading => ∀ folder mtime listing, s.folder ref = some folder → reading.mtime = some mtime →
      folder.flMtime ≠ mtime → reading.listing = some listing →
      ∀ ent ∈ listing.entries, ent.kind = .directory → isDots ent.dName = false → Fresh folder ent.dName
  | .addSubfolder parent name mkdir => mkdir = true → ∀ folder, s.folder parent = some folder →
      MAIL_DIR_SEPARATOR ∉ name ∧ Fresh folder name
  | .removeSubfolder _ => True
  | .renameSubfolder _ _ _ rename _ => rename = false

/-- A folder below another one, as the search expects it. -/
structure Named (folder subfolder : Folder) : Prop where
  path : ∃ name, MAIL_DIR_SEPARATOR ∉ name ∧ subfolder.flFilename = inside folder.flFilename name
  short : subfolder.flFilename.length < PATH_MAX

/-- What is promised of one folder, with the names below it; its subfolders have been
allocated later. -/
structure Sound (s : Store) (ref : Nat) (folder : Folder) : Prop extends Kept s ref folder where
  named : ∀ sub subfolder, some sub ∈ folder.flSubfoldersTab → s.folder sub = some subfolder → Named folder subfolder
  later : ∀ sub, some sub ∈ folder.flSubfoldersTab → ref < sub

/-- Every folder in memory is sound, and stands in the table of its parent. -/
structure Consistent (s : Store) : Prop where
  sound : ∀ ref folder, s.folder ref = some folder → Sound s ref folder
  owned : ∀ ref folder parent, s.folder ref = some folder → folder.flParent = some parent → Listed s parent ref

theorem Kept.listed (kept : Kept s ref folder) (listed : some sub ∈ folder.flSubfoldersTab) :
    ∃ subfolder, s.folder sub = some subfolder ∧ subfolder.flParent = some ref ∧
      folder.flSubfoldersTab[subfolder.flArrayIndex]? = some (some sub) ∧
      folder.flSubfoldersHash.lookup subfolder.flFilename = some sub := by
  obtain ⟨i, there⟩ := List.mem_iff_getElem?.mp listed
  obtain ⟨subfolder, live, rfl, parent, hashed⟩ := kept.entries i sub there
  exact ⟨subfolder, live, parent, there, hashed⟩

theorem Kept.distinct (kept : Kept s ref folder) : Distinct s folder := by
  intro i j sub sub' subfolder subfolder' first second live live' same
  obtain ⟨found, isFound, index, _, hashed⟩ := kept.entries i sub first
  obtain ⟨found', isFound', index', _, hashed'⟩ := kept.entries j sub' second
  rw [live] at isFound
  rw [live'] at isFound'
  cases isFound
  cases isFound'
  rw [same, hashed'] at hashed
  cases hashed
  rw [live] at live'
  cases live'
  rw [← index, ← index']

/-- A folder stays where it is in its parent. -/
structure SamePlace (folder folder' : Folder) : Prop where
  filename : folder'.flFilename = folder.flFilename
  index : folder'.flArrayIndex = folder.flArrayIndex
  parent : folder'.flParent = folder.flParent

theorem SamePlace.refl (folder : Folder) : SamePlace folder folder := ⟨rfl, rfl, rfl⟩

def Persist (s s' : Store) (subs : Nat → Prop) : Prop :=
  ∀ sub folder, subs sub → s.folder sub = some folder → ∃ folder', s'.folder sub = some folder' ∧ SamePlace folder folder'

theorem Sound.persist {folder' : Folder} (sound : Sound s ref folder)
    (persist : Persist s s' fun sub => some sub ∈ folder.flSubfoldersTab) (filename : folder'.flFilename = folder.flFilename)
    (tab : folder'.flSubfoldersTab = folder.flSubfoldersTab) (hash : folder'.flSubfoldersHash = folder.flSubfoldersHash) :
    Sound s' ref folder' := by
  constructor
  · constructor
    · intro i sub entry
      rw [tab] at entry
      obtain ⟨subfolder, live, index, parent, hashed⟩ := sound.entries i sub entry
      obtain ⟨subfolder', live', place⟩ := persist sub subfolder (List.mem_of_getElem? entry) live
      exact ⟨subfolder', live', by rw [place.index, index], by rw [place.parent, parent], by rw [hash, place.filename, hashed]⟩
    · intro key sub hashed
      rw [hash] at hashed
      obtain ⟨listed, subfolder, live, isName⟩ := sound.hash key sub hashed
      obtain ⟨subfolder', live', place⟩ := persist sub subfolder listed live
      exact ⟨by rw [tab]; exact listed, subfolder', live', by rw [place.filename, isName]⟩
  · intro sub subfolder' listed live'
    rw [tab] at listed
    obtain ⟨subfolder, live, _⟩ := sound.listed listed
    obtain ⟨found, isFound, place⟩ := persist sub subfolder listed live
    rw [live'] at isFound
    cases isFound
    obtain ⟨path, short⟩ := sound.named sub subfolder listed live
    constructor
    · rw [filename, place.filename]
      exact path
    · rw [place.filename]
      exact short
  · rw [tab]
    exact sound.later

theorem Consistent.modify (consistent : Consistent s) {change : Folder → Folder} (place : ∀ folder, SamePlace folder (change folder))
    (tab : ∀ folder, (change folder).flSubfoldersTab = folder.flSubfoldersTab)
    (hash : ∀ folder, (change folder).flSubfoldersHash = folder.flSubfoldersHash) : Consistent (s.modify ref change) := by
  have persist : ∀ subs, Persist s (s.modify ref change) subs := by
    intro subs sub folder _ live
    rw [Store.modify_folder]
    split_ifs with isRef
    · exact ⟨change folder, by rw [← isRef, live]; rfl, place folder⟩
    · exact ⟨folder, live, .refl folder⟩
  constructor
  · intro other folder' live
    rw [Store.modify_folder] at live
    split_ifs at live with isRef
    · obtain ⟨folder, before, rfl⟩ := Option.map_eq_some_iff.mp live
      exact (consistent.sound other folder (isRef ▸ before)).persist (persist _) (place folder).filename (tab folder) (hash folder)
    · exact (consistent.sound other folder' live).persist (persist _) rfl rfl rfl
  · intro other folder' parent live isParent
    have before : ∃ folder, s.folder other = some folder ∧ folder.flParent = some parent := by
      rw [Store.modify_folder] at live
      split_ifs at live with isRef
      · obtain ⟨folder, before, rfl⟩ := Option.map_eq_some_iff.mp live
        exact ⟨folder, isRef ▸ before, (place folder).parent ▸ isParent⟩
      · exact ⟨folder', live, isParent⟩
    obtain ⟨folder, wasLive, wasParent⟩ := before
    obtain ⟨parentFolder, parentLive, listed⟩ := consistent.owned other folder parent wasLive wasParent
    rw [Listed, Store.modify_folder]
    split_ifs with isRef
    · exact ⟨change parentFolder, by rw [← isRef, parentLive]; rfl, by rw [tab]; exact listed⟩
    · exact ⟨parentFolder, parentLive, listed⟩

theorem newSubfolder_folder (live : s.folder ref = some folder) (name : List UInt8) (other : Nat) :
    (newSubfolder s ref folder name).folder other =
      if other = s.size then some (mailmhFolderNew (some (ref, folder)) name folder.flSubfoldersTab.length)
      else if other = ref then
        some (addToHash (inside folder.flFilename name) s.size (addToTab s.size folder))
      else s.folder other := by
  have old := Store.live_lt live
  rw [newSubfolder, Store.modify_folder, Store.alloc_folder, Store.alloc_folder, if_neg (by omega : ref ≠ s.size), live]
  by_cases isNew : other = s.size
  · rw [if_neg (by omega), if_pos isNew, if_pos isNew]
  · rw [if_neg isNew, if_neg isNew]
    rfl

theorem getElem?_concat {list : List (Option Nat)} {last : Option Nat} {i sub : Nat} (entry : (list ++ [last])[i]? = some (some sub)) :
    list[i]? = some (some sub) ∨ i = list.length ∧ last = some sub := by
  rw [List.getElem?_append] at entry
  split_ifs at entry with early
  · exact Or.inl entry
  · rw [List.getElem?_singleton] at entry
    split_ifs at entry with isFirst
    exact Or.inr ⟨by omega, Option.some.inj entry⟩

theorem newSubfolder_persist (live : s.folder ref = some folder) (name : List UInt8) (subs : Nat → Prop) :
    Persist s (newSubfolder s ref folder name) subs := by
  intro sub subfolder _ before
  have old := Store.live_lt before
  rw [newSubfolder_folder live, if_neg (by omega)]
  split_ifs with isRef
  · rw [isRef, live] at before
    cases before
    exact ⟨_, rfl, rfl, rfl, rfl⟩
  · exact ⟨subfolder, before, .refl subfolder⟩

theorem Sound.addSubfolder (sound : Sound s ref folder) (live : s.folder ref = some folder) {name : List UInt8}
    (plain : MAIL_DIR_SEPARATOR ∉ name) (fresh : Fresh folder name) :
    Sound (newSubfolder s ref folder name) ref (addToHash (inside folder.flFilename name) s.size (addToTab s.size folder)) := by
  have persist := newSubfolder_persist live name fun _ => True
  have newThere : (newSubfolder s ref folder name).folder s.size =
      some (mailmhFolderNew (some (ref, folder)) name folder.flSubfoldersTab.length) := by
    rw [newSubfolder_folder live, if_pos rfl]
  constructor
  · constructor
    · intro i sub entry
      rcases getElem?_concat entry with early | ⟨isLast, isSub⟩
      · obtain ⟨subfolder, subLive, index, parent, hashed⟩ := sound.entries i sub early
        obtain ⟨subfolder', subLive', place⟩ := persist sub subfolder trivial subLive
        have differs : subfolder.flFilename ≠ inside folder.flFilename name := by
          intro same
          rw [same, fresh.absent] at hashed
          cases hashed
        refine ⟨subfolder', subLive', by rw [place.index, index], by rw [place.parent, parent], ?_⟩
        rw [place.filename, addToHash, AList.lookup_insert_ne differs]
        exact hashed
      · cases isSub
        exact ⟨_, newThere, isLast.symm, rfl, AList.lookup_insert _⟩
    · intro key sub hashed
      by_cases isKey : key = inside folder.flFilename name
      · subst isKey
        rw [addToHash, AList.lookup_insert] at hashed
        cases hashed
        exact ⟨List.mem_append_right _ (List.mem_singleton_self _), _, newThere, rfl⟩
      · rw [addToHash, AList.lookup_insert_ne isKey] at hashed
        obtain ⟨listed, subfolder, subLive, isName⟩ := sound.hash key sub hashed
        obtain ⟨subfolder', subLive', place⟩ := persist sub subfolder trivial subLive
        exact ⟨List.mem_append_left _ listed, subfolder', subLive', by rw [place.filename, isName]⟩
  · intro sub subfolder' listed subLive'
    rcases List.mem_append.mp listed with early | last
    · obtain ⟨subfolder, subLive, _⟩ := sound.listed early
      obtain ⟨found, isFound, place⟩ := persist sub subfolder trivial subLive
      rw [subLive'] at isFound
      cases isFound
      obtain ⟨path, short⟩ := sound.named sub subfolder early subLive
      exact ⟨place.filename ▸ path, place.filename ▸ short⟩
    · cases List.mem_singleton.mp last
      rw [newThere] at subLive'
      cases subLive'
      exact ⟨⟨name, plain, rfl⟩, fresh.short⟩
  · intro sub listed
    rcases List.mem_append.mp listed with early | last
    · exact sound.later sub early
    · cases List.mem_singleton.mp last
      exact Store.live_lt live

theorem Consistent.newSubfolder (consistent : Consistent s) (live : s.folder ref = some folder) {name : List UInt8}
    (plain : MAIL_DIR_SEPARATOR ∉ name) (fresh : Fresh folder name) : Consistent (newSubfolder s ref folder name) := by
  have refOld := Store.live_lt live
  constructor
  · intro other found isFound
    rw [newSubfolder_folder live] at isFound
    split_ifs at isFound with isNew isRef
    · cases isFound
      exact { entries := fun i sub entry => by cases entry
              hash := fun key sub hashed => by cases hashed
              named := fun sub subfolder listed => by cases listed
              later := fun sub listed => by cases listed }
    · cases isFound
      rw [isRef]
      exact (consistent.sound ref folder live).addSubfolder live plain fresh
    · exact (consistent.sound other found isFound).persist (newSubfolder_persist live name _) rfl rfl rfl
  · intro other found parent isFound isParent
    have listed : some other ∈ folder.flSubfoldersTab ++ [some s.size] ∧ parent = ref ∨ Listed s parent other ∧ parent ≠ ref := by
      rw [newSubfolder_folder live] at isFound
      split_ifs at isFound with isNew isRef
      · cases isFound
        cases isParent
        exact Or.inl ⟨by rw [isNew]; simp, rfl⟩
      · cases isFound
        obtain ⟨parentFolder, parentLive, listed⟩ := consistent.owned ref folder parent live isParent
        have apart := (consistent.sound parent parentFolder parentLive).later ref listed
        exact Or.inr ⟨⟨parentFolder, parentLive, isRef ▸ listed⟩, by omega⟩
      · obtain ⟨parentFolder, parentLive, listed⟩ := consistent.owned other found parent isFound isParent
        by_cases same : parent = ref
        · rw [same, live] at parentLive
          cases parentLive
          exact Or.inl ⟨List.mem_append_left _ listed, same⟩
        · exact Or.inr ⟨⟨parentFolder, parentLive, listed⟩, same⟩
    rcases listed with ⟨listed, rfl⟩ | ⟨⟨parentFolder, parentLive, listed⟩, differs⟩
    · exact ⟨_, by rw [newSubfolder_folder live, if_neg (by omega), if_pos rfl], listed⟩
    · have parentOld := Store.live_lt parentLive
      exact ⟨parentFolder, by rw [newSubfolder_folder live, if_neg (by omega), if_neg differs, parentLive], listed⟩

theorem inside_injective (folder : List UInt8) : Function.Injective (inside folder) := fun _ _ same =>
  (List.cons_eq_cons.mp (List.append_cancel_left same)).2

theorem Fresh.congr {folder' : Folder} {name : List UInt8} (fresh : Fresh folder name) (filename : folder'.flFilename = folder.flFilename)
    (hash : folder'.flSubfoldersHash = folder.flSubfoldersHash) : Fresh folder' name :=
  ⟨by rw [filename, hash]; exact fresh.absent, by rw [filename]; exact fresh.short⟩

/-- What holds while the entries of a directory are read: the directories among those that
are left are no subfolders yet. -/
structure Reads (s : Store) (ref : Nat) (entries : List Dirent) : Prop where
  consistent : Consistent s
  fresh : ∃ folder, s.folder ref = some folder ∧
    ∀ ent ∈ entries, ent.kind = .directory → isDots ent.dName = false → Fresh folder ent.dName

theorem Reads.modify {entries : List Dirent} (reads : Reads s ref entries) {change : Folder → Folder}
    (place : ∀ folder, SamePlace folder (change folder))
    (tab : ∀ folder, (change folder).flSubfoldersTab = folder.flSubfoldersTab)
    (hash : ∀ folder, (change folder).flSubfoldersHash = folder.flSubfoldersHash) : Reads (s.modify ref change) ref entries := by
  obtain ⟨folder, live, fresh⟩ := reads.fresh
  refine ⟨reads.consistent.modify place tab hash, change folder, by rw [Store.modify_folder, if_pos rfl, live]; rfl, ?_⟩
  intro ent member isDirectory notDots
  exact (fresh ent member isDirectory notDots).congr (place folder).filename (hash folder)

theorem Reads.rest {ent : Dirent} {entries : List Dirent} (reads : Reads s ref (ent :: entries)) : Reads s ref entries := by
  obtain ⟨folder, live, fresh⟩ := reads.fresh
  exact ⟨reads.consistent, folder, live, fun other member => fresh other (List.mem_cons_of_mem ent member)⟩

theorem Reads.entry {ent : Dirent} {entries : List Dirent} {maxIndex : UInt32} (reads : Reads s ref (ent :: entries))
    (distinct : ((ent :: entries).map Dirent.dName).Nodup) (plain : MAIL_DIR_SEPARATOR ∉ ent.dName) :
    Reads (readEntry ref (s, maxIndex) ent).1 ref entries := by
  rw [readEntry]
  cases kind : ent.kind with
  | regular size mtime =>
      dsimp only
      by_cases isMessage : UInt32.ofNat (Mbox.strtoul ent.dName) ≠ 0
      · rw [if_pos isMessage]
        exact reads.rest.modify (fun _ => ⟨rfl, rfl, rfl⟩) (fun _ => rfl) fun _ => rfl
      · rw [if_neg isMessage]
        exact reads.rest
  | directory =>
      dsimp only
      split_ifs with dots
      · exact reads.rest
      · obtain ⟨folder, live, fresh⟩ := reads.fresh
        rw [live]
        dsimp only
        cases folder.flSubfoldersHash.lookup ent.dName with
        | some _ => exact reads.rest
        | none =>
            have entFresh := fresh ent (by simp) kind (by simpa using dots)
            refine ⟨reads.consistent.newSubfolder live plain entFresh, _,
              by rw [newSubfolder_folder live, if_neg (by have := Store.live_lt live; omega), if_pos rfl], ?_⟩
            intro other member isDirectory notDots
            have otherFresh := fresh other (List.mem_cons_of_mem ent member) isDirectory notDots
            refine ⟨?_, otherFresh.short⟩
            have differs : inside folder.flFilename other.dName ≠ inside folder.flFilename ent.dName := by
              intro same
              rw [List.map_cons, List.nodup_cons, ← inside_injective _ same] at distinct
              exact distinct.1 (List.mem_map_of_mem member)
            show (folder.flSubfoldersHash.insert _ _).lookup (inside folder.flFilename other.dName) = none
            rw [AList.lookup_insert_ne differs]
            exact otherFresh.absent
  | special => exact reads.rest
  | unknown => exact reads.rest

theorem Reads.entries {entries : List Dirent} {maxIndex : UInt32} (reads : Reads s ref entries)
    (distinct : (entries.map Dirent.dName).Nodup) (plain : ∀ ent ∈ entries, MAIL_DIR_SEPARATOR ∉ ent.dName) :
    Consistent (entries.foldl (readEntry ref) (s, maxIndex)).1 := by
  induction entries generalizing s maxIndex with
  | nil => exact reads.consistent
  | cons ent entries ih =>
      rw [List.foldl_cons]
      exact ih (reads.entry distinct (plain ent (by simp))) (List.nodup_cons.mp distinct).2
        fun other member => plain other (List.mem_cons_of_mem ent member)

theorem Consistent.update (consistent : Consistent s) {reading : Reading} (safe : Safe s (.update ref reading))
    {outcome : Except MhError Unit} (updated : mailmhFolderUpdate s ref reading = some (outcome, s')) : Consistent s' := by
  rw [mailmhFolderUpdate] at updated
  cases live : s.folder ref with
  | none => simp only [live, reduceCtorEq] at updated
  | some folder =>
      cases times : reading.mtime with
      | none =>
          simp only [live, times, Option.some.injEq, Prod.mk.injEq] at updated
          exact updated.2 ▸ consistent
      | some mtime =>
          simp only [live, times] at updated
          split_ifs at updated with same
          · simp only [Option.some.injEq, Prod.mk.injEq] at updated
            exact updated.2 ▸ consistent
          · have stamped : Consistent (s.modify ref ({ · with flMtime := mtime })) :=
              consistent.modify (fun _ => ⟨rfl, rfl, rfl⟩) (fun _ => rfl) fun _ => rfl
            cases listed : reading.listing with
            | none =>
                simp only [listed, Option.some.injEq, Prod.mk.injEq] at updated
                exact updated.2 ▸ stamped
            | some listing =>
                simp only [listed, Option.some.injEq, Prod.mk.injEq] at updated
                obtain ⟨_, rfl⟩ := updated
                have begins : Reads s ref listing.entries :=
                  ⟨consistent, folder, live, safe folder mtime listing live times same listed⟩
                have restamped : Reads (s.modify ref ({ · with flMtime := mtime })) ref listing.entries :=
                  begins.modify (fun _ => ⟨rfl, rfl, rfl⟩) (fun _ => rfl) fun _ => rfl
                have cleared : Reads ((s.modify ref ({ · with flMtime := mtime })).modify ref clearMessages) ref listing.entries :=
                  restamped.modify (fun _ => ⟨rfl, rfl, rfl⟩) (fun _ => rfl) fun _ => rfl
                exact (cleared.entries listing.distinct listing.plain).modify (fun _ => ⟨rfl, rfl, rfl⟩) (fun _ => rfl) fun _ => rfl

end Etpan.Mh
