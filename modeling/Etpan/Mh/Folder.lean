import Mathlib.Data.List.AList
import Etpan.Data.Abnf
import Etpan.Mbox.Fields

namespace Etpan.Mh

open Etpan.Data

/-! The folders of `low-level/mh/mailmh.c`.

Folders are numbered in the order in which they are allocated.  Memory is always available;
a function that is given a folder that has been freed, or that reads outside of a buffer,
has the result `none`.  File names are C strings: octets without NUL. -/

inductive MhError where
  | folder
  | file
  | couldNotAllocMsg
  | rename
  | msgNotFound
deriving Repr, DecidableEq

structure MsgInfo where
  msgArrayIndex : Nat
  msgIndex : UInt32
  msgSize : Nat
  msgMtime : Int
deriving Repr, DecidableEq

structure Folder where
  flFilename : List UInt8
  flArrayIndex : Nat
  flName : List UInt8
  flMtime : Int
  flParent : Option Nat
  flMaxIndex : UInt32
  flMsgsTab : List (Option MsgInfo)
  flMsgsHash : AList fun _ : UInt32 => MsgInfo
  flSubfoldersTab : List (Option Nat)
  flSubfoldersHash : AList fun _ : List UInt8 => Nat

/-- The folders in memory: none at a number that has been freed or not been reached. -/
structure Store where
  folder : Nat → Option Folder
  size : Nat
  fresh : ∀ ref, size ≤ ref → folder ref = none

namespace Store

def empty : Store := ⟨fun _ => none, 0, fun _ _ => rfl⟩

def alloc (s : Store) (folder : Folder) : Store where
  folder := Function.update s.folder s.size (some folder)
  size := s.size + 1
  fresh := fun ref beyond => by
    have after : s.size + 1 ≤ ref := beyond
    have other : ref ≠ s.size := by omega
    rw [Function.update_of_ne other, s.fresh ref (by omega)]

def modify (s : Store) (ref : Nat) (change : Folder → Folder) : Store where
  folder := Function.update s.folder ref ((s.folder ref).map change)
  size := s.size
  fresh := fun other beyond => by
    by_cases same : other = ref
    · rw [same, Function.update_self, s.fresh ref (same ▸ beyond), Option.map_none]
    · rw [Function.update_of_ne same, s.fresh other beyond]

def erase (s : Store) (ref : Nat) : Store where
  folder := Function.update s.folder ref none
  size := s.size
  fresh := fun other beyond => by
    by_cases same : other = ref
    · rw [same, Function.update_self]
    · rw [Function.update_of_ne same, s.fresh other beyond]

variable (s : Store)

theorem live_lt {s : Store} {ref : Nat} {folder : Folder} (live : s.folder ref = some folder) : ref < s.size := by
  by_contra beyond
  rw [s.fresh ref (not_lt.mp beyond)] at live
  cases live

theorem alloc_folder (folder : Folder) (ref : Nat) :
    (s.alloc folder).folder ref = if ref = s.size then some folder else s.folder ref :=
  Function.update_apply s.folder s.size _ ref

theorem modify_folder (ref : Nat) (change : Folder → Folder) (other : Nat) :
    (s.modify ref change).folder other = if other = ref then (s.folder ref).map change else s.folder other :=
  Function.update_apply s.folder ref _ other

theorem erase_folder (ref other : Nat) : (s.erase ref).folder other = if other = ref then none else s.folder other :=
  Function.update_apply s.folder ref _ other

end Store

def MAIL_DIR_SEPARATOR : UInt8 := ascii '/'

def inside (folder name : List UInt8) : List UInt8 := folder ++ MAIL_DIR_SEPARATOR :: name

/-- The source does not set `fl_array_index` here: the caller does, or it keeps what the
memory held. -/
def mailmhFolderNew (parent : Option (Nat × Folder)) (name : List UInt8) (flArrayIndex : Nat) : Folder where
  flFilename := parent.elim name fun found => inside found.2.flFilename name
  flArrayIndex
  flName := name
  flMtime := 0
  flParent := parent.map Prod.fst
  flMaxIndex := 0
  flMsgsTab := []
  flMsgsHash := ∅
  flSubfoldersTab := []
  flSubfoldersHash := ∅

/-- The main folder is the first one. -/
def mailmhNew (foldername : List UInt8) : Store := Store.empty.alloc (mailmhFolderNew none foldername 0)

/-- A folder is freed with its subfolders.  The depth bounds the calls within each other. -/
def mailmhFolderFree : Nat → Store → Nat → Store
  | 0, s, _ => s
  | depth + 1, s, ref =>
      match s.folder ref with
      | none => s
      | some folder =>
          (folder.flSubfoldersTab.foldl (fun s subfolder => subfolder.elim s (mailmhFolderFree depth s)) s).erase ref

/-- What `stat` says of a directory entry. -/
inductive Kind where
  | regular (size : Nat) (mtime : Int)
  | directory
  | special
  | unknown
deriving Repr, DecidableEq

structure Dirent where
  dName : List UInt8
  kind : Kind
deriving Repr, DecidableEq

/-- The entries of a directory: no two have the same name, and no name is a path. -/
structure Listing where
  entries : List Dirent
  distinct : (entries.map Dirent.dName).Nodup
  plain : ∀ ent ∈ entries, MAIL_DIR_SEPARATOR ∉ ent.dName

structure Reading where
  mtime : Option Int
  listing : Option Listing

def clearMessages (folder : Folder) : Folder :=
  { folder with
    flMsgsTab := []
    flMsgsHash := folder.flMsgsTab.foldl
      (fun hash msgInfo => msgInfo.elim hash fun msgInfo => hash.erase msgInfo.msgIndex) folder.flMsgsHash }

def addMsgInfo (folder : Folder) (indx : UInt32) (size : Nat) (mtime : Int) : Folder :=
  let msgInfo : MsgInfo := ⟨folder.flMsgsTab.length, indx, size, mtime⟩
  { folder with
    flMsgsTab := folder.flMsgsTab ++ [some msgInfo]
    flMsgsHash := folder.flMsgsHash.insert indx msgInfo }

def isDots (name : List UInt8) : Bool := name = [ascii '.'] || name = [ascii '.', ascii '.']

def addToTab (subfolder : Nat) (folder : Folder) : Folder :=
  { folder with flSubfoldersTab := folder.flSubfoldersTab ++ [some subfolder] }

def addToHash (key : List UInt8) (subfolder : Nat) (folder : Folder) : Folder :=
  { folder with flSubfoldersHash := folder.flSubfoldersHash.insert key subfolder }

def newSubfolder (s : Store) (ref : Nat) (folder : Folder) (name : List UInt8) : Store :=
  let subfolder := mailmhFolderNew (some (ref, folder)) name folder.flSubfoldersTab.length
  (s.alloc subfolder).modify ref (addToHash subfolder.flFilename s.size ∘ addToTab s.size)

def readEntry (ref : Nat) (read : Store × UInt32) (ent : Dirent) : Store × UInt32 :=
  match ent.kind with
  | .regular size mtime =>
      let indx := UInt32.ofNat (Mbox.strtoul ent.dName)
      if indx ≠ 0 then
        (read.1.modify ref fun folder => addMsgInfo folder indx size mtime, if read.2 < indx then indx else read.2)
      else read
  | .directory =>
      if isDots ent.dName then read
      else
        match read.1.folder ref with
        | none => read
        | some folder =>
            match folder.flSubfoldersHash.lookup ent.dName with
            | some _ => read
            | none => (newSubfolder read.1 ref folder ent.dName, read.2)
  | .special => read
  | .unknown => read

def mailmhFolderUpdate (s : Store) (ref : Nat) (reading : Reading) : Option (Except MhError Unit × Store) :=
  match s.folder ref with
  | none => none
  | some folder =>
      match reading.mtime with
      | none => some (.error .folder, s)
      | some mtime =>
          if folder.flMtime = mtime then some (.ok (), s)
          else
            let s := s.modify ref ({ · with flMtime := mtime })
            match reading.listing with
            | none => some (.error .folder, s)
            | some listing =>
                let (s, maxIndex) := listing.entries.foldl (readEntry ref) (s.modify ref clearMessages, 0)
                some (.ok (), s.modify ref ({ · with flMaxIndex := maxIndex }))

/-- The flag says whether `mkdir` succeeds. -/
def mailmhFolderAddSubfolder (s : Store) (parent : Nat) (name : List UInt8) (mkdir : Bool) : Option (Except MhError Unit × Store) :=
  match s.folder parent with
  | none => none
  | some folder => if mkdir then some (.ok (), newSubfolder s parent folder name) else some (.error .folder, s)

def dropSubfolder (subfolder : Folder) (folder : Folder) : Folder :=
  { folder with
    flSubfoldersTab := folder.flSubfoldersTab.set subfolder.flArrayIndex none
    flSubfoldersHash := folder.flSubfoldersHash.erase subfolder.flFilename }

def mailmhFolderRemoveSubfolder (s : Store) (ref : Nat) : Option (Except MhError Unit × Store) :=
  match s.folder ref with
  | none => none
  | some folder =>
      match folder.flParent with
      | none => none
      | some parent =>
          match s.folder parent with
          | none => none
          | some parentFolder =>
              match parentFolder.flSubfoldersHash.lookup folder.flFilename with
              | none => some (.error .folder, s)
              | some _ => some (.ok (), mailmhFolderFree s.size (s.modify parent (dropSubfolder folder)) ref)

/-- The flag says whether `rename` succeeds; `memory` is what the new folder finds in its
array index. -/
def mailmhFolderRenameSubfolder (s : Store) (src dst : Nat) (newName : List UInt8) (rename : Bool) (memory : Nat) :
    Option (Except MhError Unit × Store) :=
  match s.folder src with
  | none => none
  | some srcFolder =>
      match srcFolder.flParent with
      | none => some (.error .rename, s)
      | some parent =>
          if rename then
            match mailmhFolderRemoveSubfolder s src with
            | none => none
            | some (.error error, s) => some (.error error, s)
            | some (.ok (), s) =>
                match s.folder dst with
                | none => none
                | some dstFolder =>
                    some (.ok (), (s.alloc (mailmhFolderNew (some (dst, dstFolder)) newName memory)).modify parent (addToTab s.size))
          else some (.error .rename, s)

def PATH_MAX : Nat := 4096

/-- The rounds bound the calls within each other. -/
def mailmhFolderFind (s : Store) : Nat → Nat → List UInt8 → Option (Option Nat)
  | 0, _, _ => none
  | rounds + 1, root, filename =>
      match s.folder root with
      | none => none
      | some folder =>
          if folder.flFilename = filename then some (some root)
          else if PATH_MAX ≤ folder.flFilename.length + 1 then none
          else
            let pathname := filename.take (PATH_MAX - 1)
            let start := folder.flFilename.length + 1
            match (pathname.drop start).idxOf? MAIL_DIR_SEPARATOR with
            | none => some (folder.flSubfoldersHash.lookup pathname)
            | some p =>
                match mailmhFolderFind s rounds root (pathname.take (start + p)) with
                | none => none
                | some none => some none
                | some (some root) => mailmhFolderFind s rounds root filename

end Etpan.Mh
